import Std.Data.HashMap
import StreamQuery.Pattern.Basic
import StreamQuery.Unicode.CodePointSet

/-!
# The memory of automata

A pattern is accepted only if the automata that read texts for it are small. This module follows
their construction as far as the memory they take.
-/

/-!
## Ranges of encoded characters

The characters of a range, encoded in UTF-8, are the texts of a few sequences of byte ranges. The
range is cut where the length of the encoding changes, and then until each piece holds all
combinations of bytes between those of its ends.
-/

namespace StreamQuery.Pattern

/-- Ranges of bytes in a row. -/
abbrev ByteSequence := List (Nat × Nat)

namespace ByteSequence

/-- A range cut after a code point inside it. -/
def cutAfter (limit : Nat) (range : Nat × Nat) : List (Nat × Nat) :=
  if range.1 ≤ limit ∧ limit < range.2 then [(range.1, limit), (limit + 1, range.2)] else [range]

/-- A range without the code points of no character, which are cut out of it. -/
def cutSurrogates (range : Nat × Nat) : List (Nat × Nat) :=
  if range.1 < 0xE000 ∧ 0xD7FF < range.2 then [(range.1, 0xD7FF), (0xE000, range.2)] else [range]

/-- A range of characters beyond ASCII cut where the first or the last block of a size is not all in
it, unless the range lies in one block. -/
def cutAtBlocks (size : Nat) (range : Nat × Nat) : List (Nat × Nat) :=
  let (first, last) := range
  let pieces :=
    if first % size = 0 then [range] else cutAfter (first / size * size + size - 1) range
  if last % size = size - 1 then pieces else pieces.flatMap (cutAfter (last / size * size - 1))

/-- The pieces of a range whose characters have encodings of one length. -/
def evenPieces (range : Nat × Nat) : List (Nat × Nat) :=
  [0x7F, 0x7FF, 0xFFFF].foldl (fun pieces limit => pieces.flatMap (cutAfter limit))
    (cutSurrogates range)

/-- The pieces of a range of characters with encodings of one length that are each all combinations
of bytes. -/
def pieces (range : Nat × Nat) : List (Nat × Nat) :=
  if range.2 < 128 then [range]
  else [0x40, 0x1000, 0x40000].foldl (fun pieces size => pieces.flatMap (cutAtBlocks size)) [range]

/-- The bytes of an encoded character. -/
def bytes (code : Nat) : List Nat :=
  (String.utf8EncodeChar (Char.ofNat code)).map UInt8.toNat

/-- The sequences of the encodings of a range. -/
def ofRange (range : Nat × Nat) : List ByteSequence :=
  ((evenPieces range).flatMap pieces).map fun piece => (bytes piece.1).zip (bytes piece.2)

/-- The sequences of the encodings of a set. -/
def ofSet (set : Unicode.CodePointSet) : List ByteSequence :=
  set.ranges.toList.flatMap ofRange

end ByteSequence

/-!
## The memory of automata

Two automata can read the bytes of texts for a pattern, one forward and one backward. Their
construction is followed here as far as the memory they take: a fixed size for each state, and some
more for each transition of a state that reads one of several ranges of bytes and for each branch
of a state that chooses between others.
-/

/-- The memory of an automaton: the number of its states, and the bytes that transitions and
branches take beside them. -/
structure Footprint where
  states : Nat
  lists : Nat
  deriving DecidableEq, Repr

namespace Footprint

/-- The bytes of a state. -/
def stateSize : Nat := 32

/-- The bytes of a transition in the list of a state. -/
def transitionSize : Nat := 8

/-- The bytes of a branch in the list of a state. -/
def branchSize : Nat := 4

/-- The bytes that an automaton may take. -/
def limit : Nat := 10 * 0x100000

/-- The bytes that an automaton takes. -/
def bytes (footprint : Footprint) : Nat :=
  stateSize * footprint.states + footprint.lists

/-- Whether an automaton is not too large. -/
def fits (footprint : Footprint) : Bool :=
  footprint.bytes ≤ limit

/-- The construction of an automaton. -/
abbrev Growth := StateM Footprint

/-- The number that the next state gets. -/
def nextState : Growth Nat := do
  return (← get).states

/-- Adds states. Their lists are still empty, if they have any. -/
def addStates (count : Nat) : Growth Unit :=
  modify fun footprint => { footprint with states := footprint.states + count }

/-- Adds transitions to a state that reads one of several ranges of bytes. -/
def addTransitions (count : Nat) : Growth Unit :=
  modify fun footprint => { footprint with lists := footprint.lists + transitionSize * count }

/-- Adds branches to a state that chooses. -/
def addBranches (count : Nat) : Growth Unit :=
  modify fun footprint => { footprint with lists := footprint.lists + branchSize * count }

/-- Joins the end of a part to what follows it. It is one more branch if the end chooses. -/
def join (chooses : Bool) : Growth Unit :=
  addBranches (if chooses then 1 else 0)

/-! ### Sets of characters -/

/-- The slots for states of a forward automaton that may be used again. -/
def forwardSlots : Nat := 10000

/-- The slots for states of a backward automaton that may be used again. -/
def backwardSlots : Nat := 1000

/-- The states that may be used again: the last one of each slot, with the key it is found by. -/
abbrev Shared := Std.HashMap Nat (List Nat × Nat)

/-- The slot of a key among a number of slots. The parts of the key are mixed into a number of 64
bits by exclusive ors and products. -/
def slot (slots : Nat) (key : List Nat) : Nat :=
  let hash : UInt64 := key.foldl (fun hash part => (hash ^^^ part.toUInt64) * 1099511628211)
    14695981039346656037
  hash.toNat % slots

/-- The state of a key: one that is there already, or a new one with some transitions. -/
def share (slots : Nat) (key : List Nat) (transitions : Nat) : StateT Shared Growth Nat := do
  let slot := slot slots key
  match (← get)[slot]? with
  | some (other, state) => if other == key then return state else add slot
  | none => add slot
where
  add (slot : Nat) : StateT Shared Growth Nat := do
    let state ← nextState
    addStates 1
    addTransitions transitions
    modify (·.insert slot (key, state))
    return state

/-- The state from which sequences of at most a length lead to another state. Sequences that begin
with the same range share the state after it, and so do equal rests of sequences. -/
def addForward (target : Nat) : Nat → List ByteSequence → StateT Shared Growth Nat
  | 0, _ => return target
  | length + 1, sequences => do
    if sequences.all List.isEmpty then return target
    let transitions ← (sequences.splitBy fun a b => a.head? == b.head?).mapM fun group => do
      let next ← addForward target length (group.map List.tail)
      return ((group.head?.bind List.head?).elim [] fun (first, last) => [first, last]) ++ [next]
    share forwardSlots transitions.flatten transitions.length

/-- The branches that read sequences backward from one state to another. Ranges that equal ones
lead to share a state. -/
def addBackward (target : Nat) (sequences : List ByteSequence) : StateT Shared Growth Unit :=
  sequences.forM fun sequence => do
    let _ ← sequence.foldlM (fun next (first, last) =>
      share backwardSlots [next, first, last] 0) target
    addBranches 1

/-- Adds a character of a set. -/
def addSet (backward : Bool) (set : Unicode.CodePointSet) : Growth Unit := do
  if set.isAscii then
    addStates 2
    addTransitions set.ranges.size
  else
    let sequences := ByteSequence.ofSet set
    if backward then addStates 1
    let target ← nextState
    addStates 1
    if backward then
      let _ ← (addBackward target sequences).run {}
    else
      let _ ← (addForward target 4 sequences).run {}

/-! ### Choices of texts -/

/-- What is left of texts after their first bytes, those with equal first bytes together. -/
def afterFirst (texts : List (List UInt8)) : List (List (List UInt8)) :=
  (texts.filterMap List.head?).eraseDups.map fun byte =>
    texts.filterMap fun text => if text.head? == some byte then some text.tail else none

/-- Adds a choice of texts of at most a length. Texts that begin alike share states, except across
a text that ends where they are still alike. -/
def addTexts : Nat → List (List UInt8) → Growth Unit
  | 0, _ => return
  | length + 1, texts => do
    if texts.all List.isEmpty then return
    let runs := (texts.splitBy fun a b => !a.isEmpty && !b.isEmpty).filter (·.any (!·.isEmpty))
    runs.forM fun run => do
      let rests := afterFirst run
      rests.forM (addTexts length)
      addStates 1
      addTransitions (if rests.length = 1 then 0 else rests.length)
    addStates 1
    let ends := (texts.takeWhile List.isEmpty).take 1 ++
      (texts.dropWhile List.isEmpty).filter List.isEmpty
    addBranches (runs.length + ends.length)

/-- The bytes of a text in the order they are read. -/
def bytesOf (backward : Bool) (chars : List Char) : List UInt8 :=
  let bytes := chars.flatMap String.utf8EncodeChar
  if backward then bytes.reverse else bytes

/-- The characters of a pattern that is a text. -/
def text? : Pattern → Option (List Char)
  | .verbatim chars => some chars
  | _ => none

/-! ### Repetitions -/

/-- Adds further copies of a part after an end, as long as the automaton is not too large. It ends
in a state that chooses or in one that does not, as told. -/
def addMore (part : Growth Bool) (chooses : Bool) : Nat → Growth Bool
  | 0 => return chooses
  | count + 1 => do
    if !(← get).fits then return chooses
    let next ← part
    join chooses
    addMore part next count

/-- Adds copies of a part. -/
def addCopies (part : Growth Bool) : Nat → Growth Bool
  | 0 => do
    addStates 1
    return false
  | count + 1 => do addMore part (← part) count

/-- Adds copies of a part that may be left out, as long as the automaton is not too large. -/
def addOptional (part : Growth Bool) (chooses : Bool) : Nat → Growth Bool
  | 0 => return chooses
  | count + 1 => do
    if !(← get).fits then return chooses
    addStates 1
    let next ← part
    join chooses
    addBranches 2
    addOptional part next count

/-- Adds a part repeated. -/
def addRepeated (part : Growth Bool) (mayBeEmpty : Bool) (least : Nat) (most : Option Nat) :
    Growth Bool := do
  match most with
  | some most =>
    if least = 0 ∧ most = 1 then
      addStates 1
      let chooses ← part
      addStates 1
      join chooses
      addBranches 2
      return false
    else
      let chooses ← addCopies part least
      if least = most then return chooses
      addStates 1
      join (← addOptional part chooses (most - least))
      return false
  | none =>
    if least = 0 ∧ mayBeEmpty then
      join (← part)
      addStates 3
      addBranches 4
      return false
    else if least = 0 then
      addStates 1
      join (← part)
      addBranches 1
      return true
    else
      join (← addCopies part least)
      addStates 1
      addBranches 1
      return true

/-! ### Patterns -/

mutual

/-- Adds a pattern; whether it ends in a state that chooses. Groups are marked in forward automata
only. -/
def addPattern (backward : Bool) : Pattern → Growth Bool
  | .empty | .test _ => do
    addStates 1
    return false
  | .verbatim chars => do
    addStates (bytesOf backward chars).length
    return false
  | .one set => do
    addSet backward set
    return false
  | .group _ _ inner => do
    if backward then addPattern backward inner
    else
      addStates 1
      let chooses ← addPattern backward inner
      addStates 1
      join chooses
      return false
  | .sequence parts => addSequence backward parts
  | .choice branches => do
    match branches.mapM text? with
    | some texts =>
      let texts := texts.map (bytesOf backward)
      addStates 1
      addTexts ((texts.map List.length).foldl max 0 + 1) texts
    | none => addChoice backward 0 branches
    return false
  | .repeated inner least most _ =>
    addRepeated (addPattern backward inner) inner.mayBeEmpty least most
termination_by structural pattern => pattern

/-- Adds patterns one after the other in the order they are read; whether the last one ends in a
state that chooses. -/
def addSequence (backward : Bool) : List Pattern → Growth Bool
  | [] => return false
  | part :: rest => do
    if backward then
      let chooses ← addSequence backward rest
      join chooses
      addPattern backward part
    else
      let chooses ← addPattern backward part
      if rest.isEmpty then return chooses
      join chooses
      addSequence backward rest
termination_by structural parts => parts

/-- Adds the branches of a choice from one on. The state that chooses between them comes after the
first two. -/
def addChoice (backward : Bool) (index : Nat) : List Pattern → Growth Unit
  | [] => return
  | branch :: rest => do
    let chooses ← addPattern backward branch
    if index = 1 then addStates 2
    join chooses
    addBranches 1
    addChoice backward (index + 1) rest
termination_by structural branches => branches

end

/-- Adds the automaton of a pattern. Unless it is anchored, any bytes may come first. -/
def addAutomaton (backward : Bool) (pattern : Pattern) : Growth Unit := do
  if pattern.isAnchored backward then addStates 1
  else
    addStates 3
    addTransitions 1
    addBranches 2
  join (← addPattern backward (.group 0 none pattern))
  addStates 1

/-- The memory of the automaton of a pattern. -/
def ofPattern (backward : Bool) (pattern : Pattern) : Footprint :=
  ((addAutomaton backward pattern).run ⟨0, 0⟩).2

end Footprint

/-!
## Affordable patterns

A pattern is accepted only if both of its automata fit into a limited memory. Of most patterns a
rough bound of the memory shows that already.
-/

namespace Footprint

/-- A bound of the bytes that one character of a set takes. A range of characters is cut into at
most sixteen sequences of bytes, and into a single one inside a block of 64. -/
def setBound (set : Unicode.CodePointSet) : Nat :=
  let sequences := set.ranges.foldl (fun count (first, last) =>
    count + if first / 64 = last / 64 then 1 else 16) 0
  2 * stateSize + sequences * (4 * (stateSize + transitionSize) + branchSize)

mutual

/-- A bound of the bytes that a pattern takes. -/
def bound : Pattern → Nat
  | .empty | .test _ => stateSize
  | .verbatim chars => chars.length * 4 * (3 * stateSize)
  | .one set => setBound set
  | .group _ _ inner => bound inner + 3 * stateSize
  | .sequence parts => boundOfAll parts
  | .choice branches => boundOfAll branches + 2 * stateSize
  | .repeated inner least most _ =>
    max (max least (most.getD 0)) 1 * (bound inner + 2 * stateSize) + 4 * stateSize
termination_by structural pattern => pattern

/-- A bound of the bytes that patterns next to each other take. -/
def boundOfAll : List Pattern → Nat
  | [] => 0
  | part :: rest => bound part + 2 * branchSize + boundOfAll rest
termination_by structural parts => parts

end

end Footprint

/-- Whether the automata of a pattern are not too large. -/
def isAffordable (pattern : Pattern) : Bool :=
  Footprint.bound pattern + 8 * Footprint.stateSize ≤ Footprint.limit ||
    ((Footprint.ofPattern false pattern).fits && (Footprint.ofPattern true pattern).fits)

end StreamQuery.Pattern
