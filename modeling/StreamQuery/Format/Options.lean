import StreamQuery.Error

/-!
# Options of formats

A reader or writer takes its options one by one from those of a call, and refuses the call if any
is left. Taking an option puts the last one into its place, which decides the option that a
refusal names.
-/

namespace StreamQuery

/-- The options of a call that were not taken yet. -/
structure Options where
  format : String
  role : FormatRole
  entries : List (String × Value)

/-- Computations that take options. -/
abbrev Taking := ExceptT FormatFault (StateM Options)

namespace Options

/-- The options of a call of a format, whose name is shown in lower case. -/
def ofCall (format : String) (role : FormatRole) (entries : List (String × Value)) : Options :=
  ⟨Unicode.toLower format, role, entries⟩

/-- Entries without one of them, whose place the last one takes. -/
def withoutEntry (key : String) (entries : List (String × Value)) : List (String × Value) :=
  match entries.findIdx? (·.1 == key), entries.getLast? with
  | some index, some last => (entries.set index last).dropLast
  | _, _ => entries

/-- Takes the value of an option; null counts as no value. -/
def take (key : String) : Taking (Option Value) := do
  let options ← get
  set { options with entries := withoutEntry key options.entries }
  match lookup? key options.entries with
  | some .null => return none
  | value => return value

/-- Refuses the value of an option. -/
def refuse {α : Type} (key : String) (rule : OptionRule) : Taking α := do
  let options ← get
  throw (.invalidOption options.format options.role key rule)

/-- Takes a boolean; numbers are true unless they are zero. -/
def takeBool (key : String) : Taking (Option Bool) := do
  match ← take key with
  | none => return none
  | some (.bool b) => return some b
  | some (.int n) => return some (n.val != 0)
  | some (.float x) => return some (x.val != 0.0)
  | some _ => refuse key .boolean

/-- Takes a count. -/
def takeNat (key : String) : Taking (Option Nat) := do
  match ← take key with
  | none => return none
  | some (.int n) => if n.val < 0 then refuse key .natural else return some n.val.toNat
  | some _ => refuse key .natural

/-- Takes a text. -/
def takeText (key : String) : Taking (Option String) := do
  match ← take key with
  | none => return none
  | some (.str text) => return some text
  | some _ => refuse key .text

/-- Takes a character of ASCII, as a byte; a tab may be written as an escape. -/
def takeByte (key : String) : Taking (Option UInt8) := do
  match ← takeText key with
  | none => return none
  | some text => match text.toList with
    | ['\\', 't'] => return some 9
    | [c] => if c.toNat < 128 then return some c.toNat.toUInt8 else refuse key .singleCharacter
    | _ => refuse key .singleCharacter

/-- Refuses options that were not taken. -/
def finish : Taking Unit := do
  let options ← get
  match options.entries with
  | [] => return ()
  | (option, _) :: _ => throw (.unknownOption options.format options.role option)

/-- Takes all options of a call. -/
def takeAll {α : Type} (options : Options) (taking : Taking α) : Except FormatFault α :=
  ((do
    let taken ← taking
    finish
    return taken : Taking α).run.run options).1

end Options

end StreamQuery
