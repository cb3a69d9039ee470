import StreamQuery.Json.Reader
import StreamQuery.Text.Search
import StreamQuery.Unicode.Property

/-!
# Options as texts

On a command line an option is written as its name, an equals sign and its value.
-/

namespace StreamQuery.OptionText

/-- A text without blanks around it. -/
def trimmed (text : List Char) : String :=
  String.ofList (Text.trim Unicode.isWhitespace text)

/-- The value that a text stands for: a word for a truth value or null, a JSON document, or else
the text itself. -/
def value (text : String) : Value :=
  match trimmed text.toList with
  | "True" => .bool true
  | "TRUE" => .bool true
  | "False" => .bool false
  | "FALSE" => .bool false
  | "None" => .null
  | "NULL" => .null
  | "Null" => .null
  | content => (Json.read? content).getD (.str text)

/-- The name and the value that an option is written as, if it has an equals sign. -/
def entry? (text : String) : Option (String × Value) :=
  let name := text.toList.takeWhile (· != '=')
  match text.toList.drop name.length with
  | [] => none
  | _ :: rest => some (trimmed name, value (String.ofList rest))

/-- The options of texts, or the first text that is none. -/
def entries (texts : List String) : Except String (List (String × Value)) :=
  texts.foldlM (fun options text => match entry? text with
    | some (name, value) => .ok (insertEntry name value options)
    | none => .error text) []

/-- The wording for a text that is no option. -/
def refusal (text : String) : String :=
  "bad format for option '" ++ text ++ "', format must be 'option=value'"

end StreamQuery.OptionText
