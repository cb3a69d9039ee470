import StreamQuery.Pattern.Footprint
import StreamQuery.Pattern.Meaning
import Std.Data.HashSet

/-!
# Matching patterns

A pattern is compiled to a graph of instructions, in which alternatives stand in order of
preference. The matcher follows the preferred alternative first and never visits an instruction
twice at the same place of the text, so its work is bounded by the product of the two sizes. Of
several matches it finds the leftmost, and of these the preferred one.
-/

namespace StreamQuery.Pattern

/-- An instruction with the places of those that follow it. -/
inductive Instruction where
  | found
  | char (c : Char) (next : Nat)
  | one (set : Unicode.CodePointSet) (next : Nat)
  | test (condition : PositionTest) (next : Nat)
  | mark (slot next : Nat)
  | either (first second : Nat)
  deriving Inhabited

/-- A program under construction. -/
abbrev Building := StateM (Array Instruction)

/-- An instruction added at the end; its place. -/
def emit (instruction : Instruction) : Building Nat :=
  modifyGet fun program => (program.size, program.push instruction)

/-- An instruction put in the place kept for it. -/
def fill (place : Nat) (instruction : Instruction) : Building Unit :=
  modify fun program => program.setIfInBounds place instruction

/-- The choice between going on with a repetition and leaving it. -/
def preferring (greedy : Bool) (again leave : Nat) : Instruction :=
  if greedy then .either again leave else .either leave again

/-- A step of construction applied a number of times, each to the result of the one before. -/
def iterate (step : Nat → Building Nat) : Nat → Nat → Building Nat
  | 0, place => pure place
  | count + 1, place => do iterate step count (← step place)

/-- One or more repetitions. -/
def compileOneOrMore (inner : Nat → Building Nat) (greedy : Bool) (next : Nat) :
    Building Nat := do
  let place ← emit .found
  let start ← inner place
  fill place (preferring greedy start next)
  return start

/-- A repetition of a part, given how to compile the part. A part that may be empty is repeated
once or more, or left out. -/
def compileRepeated (inner : Nat → Building Nat) (mayBeEmpty : Bool) (least : Nat)
    (most : Option Nat) (greedy : Bool) (next : Nat) : Building Nat := do
  match most with
  | some most =>
    let optional ← iterate (fun place => do
      let start ← inner place
      emit (preferring greedy start next)) (most - least) next
    iterate inner least optional
  | none =>
    match least with
    | 0 =>
      if mayBeEmpty then
        let start ← compileOneOrMore inner greedy next
        emit (preferring greedy start next)
      else
        let place ← emit .found
        let start ← inner place
        fill place (preferring greedy start next)
        return place
    | least + 1 => iterate inner least (← compileOneOrMore inner greedy next)

mutual

/-- Compiles a pattern before the instruction `next`; the place where it starts. -/
def compile : Pattern → Nat → Building Nat
  | .empty, next => pure next
  | .verbatim chars, next => chars.foldrM (fun c next => emit (.char c next)) next
  | .one set, next => emit (.one set next)
  | .test condition, next => emit (.test condition next)
  | .group index _ inner, next => do
    let stop ← emit (.mark (2 * index + 1) next)
    let start ← compile inner stop
    emit (.mark (2 * index) start)
  | .sequence parts, next => compileAll parts next
  | .choice branches, next => compileAny branches next
  | .repeated inner least most greedy, next =>
    compileRepeated (compile inner) inner.mayBeEmpty least most greedy next
termination_by structural pattern => pattern

/-- Compiles patterns one after the other. -/
def compileAll : List Pattern → Nat → Building Nat
  | [], next => pure next
  | part :: rest, next => do compile part (← compileAll rest next)
termination_by structural parts => parts

/-- Compiles the choice between patterns. -/
def compileAny : List Pattern → Nat → Building Nat
  | [], next => pure next
  | branch :: rest, next => do
    match rest with
    | [] => compile branch next
    | rest =>
      let first ← compile branch next
      let second ← compileAny rest next
      emit (.either first second)
termination_by structural branches => branches

end

end Pattern

/-- A compiled regular expression. Slots `2 * i` and `2 * i + 1` hold the ends of group `i`; group
zero is the whole match. Groups that a pattern loses when it is simplified leave their numbers
unused. -/
structure Regex where
  program : Array Pattern.Instruction
  start : Nat
  groups : List (Nat × Option String)

namespace Regex

/-- The regular expression of a text, if the text is one that is not too large. -/
def ofText? (text : List Char) : Option Regex := do
  let pattern ← Pattern.ofText? text
  if pattern.isAffordable then
    let (start, program) := (Pattern.compile (.group 0 none pattern) 0).run #[.found]
    some ⟨program, start, pattern.groups⟩
  else none

/-- The largest number of a group. -/
def lastGroup (regex : Regex) : Nat :=
  (regex.groups.map (·.1)).foldl max 0

/-- The number of a group by its name. -/
def groupNamed? (regex : Regex) (name : String) : Option Nat :=
  (regex.groups.find? (·.2 == some name)).map (·.1)

/-- A place of the program to try at a place of the text, with the group ends passed before. -/
structure Job where
  place : Nat
  position : Nat
  slots : Array (Option Nat)

/-- The instruction and position pairs that were tried already. -/
abbrev Tried := Std.HashSet (Nat × Nat)

/-- Tries jobs in order until one reaches the end of the program. -/
def run (regex : Regex) (text : Array Char) :
    Nat → List Job → Tried → Option (Array (Option Nat)) × Tried
  | 0, _, tried => (none, tried)
  | _, [], tried => (none, tried)
  | fuel + 1, job :: rest, tried =>
    if tried.contains (job.place, job.position) then run regex text fuel rest tried
    else
      let tried := tried.insert (job.place, job.position)
      match regex.program[job.place]? with
      | none => run regex text fuel rest tried
      | some .found => (some job.slots, tried)
      | some (.char char next) =>
        if text[job.position]? == some char then
          run regex text fuel (⟨next, job.position + 1, job.slots⟩ :: rest) tried
        else run regex text fuel rest tried
      | some (.one set next) =>
        match text[job.position]? with
        | some c =>
          if set.contains c.toNat then
            run regex text fuel (⟨next, job.position + 1, job.slots⟩ :: rest) tried
          else run regex text fuel rest tried
        | none => run regex text fuel rest tried
      | some (.test condition next) =>
        let before := if job.position = 0 then none else text[job.position - 1]?
        if condition.holds before text[job.position]? then
          run regex text fuel (⟨next, job.position, job.slots⟩ :: rest) tried
        else run regex text fuel rest tried
      | some (.mark slot next) =>
        run regex text fuel
          (⟨next, job.position, job.slots.setIfInBounds slot (some job.position)⟩ :: rest) tried
      | some (.either first second) =>
        run regex text fuel
          (⟨first, job.position, job.slots⟩ :: ⟨second, job.position, job.slots⟩ :: rest) tried

/-- A match: the ends of all groups. -/
structure Match where
  slots : Array (Option Nat)

/-- The ends of a group, if it took part in the match. -/
def Match.group? (found : Match) (index : Nat) : Option (Nat × Nat) :=
  match found.slots[2 * index]?, found.slots[2 * index + 1]? with
  | some (some first), some (some last) => some (first, last)
  | _, _ => none

/-- Where a match begins. -/
def Match.first (found : Match) : Nat :=
  ((found.group? 0).map (·.1)).getD 0

/-- Where a match ends. -/
def Match.last (found : Match) : Nat :=
  ((found.group? 0).map (·.2)).getD 0

/-- The leftmost match from a position on; `remaining` counts the positions left to try. -/
def searchFrom (regex : Regex) (text : Array Char) (position : Nat) (tried : Tried) :
    Nat → Option Match
  | 0 => none
  | remaining + 1 =>
    let slots := Array.replicate (2 * regex.lastGroup + 2) none
    let fuel := 2 * regex.program.size * (text.size + 1) + 2
    match run regex text fuel [⟨regex.start, position, slots⟩] tried with
    | (some slots, _) => some ⟨slots⟩
    | (none, tried) => searchFrom regex text (position + 1) tried remaining

/-- The leftmost match that begins at a position or after it. -/
def find? (regex : Regex) (text : Array Char) (position : Nat) : Option Match :=
  regex.searchFrom text position {} (text.size + 1 - position)

/-- The matches from a position on, without overlaps. An empty match right after the match before
it is passed over. -/
def matchesFrom (regex : Regex) (text : Array Char) (position : Nat) (previous : Option Nat) :
    Nat → List Match
  | 0 => []
  | fuel + 1 =>
    match regex.find? text position with
    | none => []
    | some found =>
      let found? :=
        if found.first = found.last ∧ previous = some found.last then
          regex.find? text (position + 1)
        else some found
      match found? with
      | none => []
      | some found => found :: regex.matchesFrom text found.last (some found.last) fuel

/-- All matches of a text, without overlaps. -/
def matchesOf (regex : Regex) (text : Array Char) : List Match :=
  regex.matchesFrom text 0 none (text.size + 2)

/-- The text between two positions. -/
def part (text : Array Char) (first last : Nat) : String :=
  String.ofList (text.extract first last).toList

/-- The text of a group, empty if it took no part in the match. -/
def Match.groupText (found : Match) (text : Array Char) (index : Nat) : String :=
  ((found.group? index).map fun (first, last) => part text first last).getD ""

/-- The text of the first match. -/
def search? (regex : Regex) (text : String) : Option String :=
  let chars := text.toList.toArray
  (regex.find? chars 0).map fun found => found.groupText chars 0

/-- The texts between the matches. -/
def split (regex : Regex) (text : String) : List String :=
  let chars := text.toList.toArray
  go chars 0 (regex.matchesOf chars)
where
  go (chars : Array Char) (position : Nat) : List Match → List String
    | [] => [part chars position chars.size]
    | found :: rest => part chars position found.first :: go chars found.last rest

/-- A text with matches replaced; at most `limit` of them, or all when it is zero. -/
def replace (regex : Regex) (limit : Nat) (replacement : Array Char → Match → String)
    (text : String) : String :=
  let chars := text.toList.toArray
  let found := regex.matchesOf chars
  String.join (go chars 0 (if limit = 0 then found else found.take limit))
where
  go (chars : Array Char) (position : Nat) : List Match → List String
    | [] => [part chars position chars.size]
    | found :: rest =>
      part chars position found.first :: replacement chars found :: go chars found.last rest

end Regex

end StreamQuery
