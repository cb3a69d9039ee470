import StreamQuery.Unicode.Age
import StreamQuery.Unicode.BinaryProperty
import StreamQuery.Unicode.Break
import StreamQuery.Unicode.LooseName
import StreamQuery.Unicode.ScriptExtension

/-!
# Properties by name

The names of general categories, and how a property is asked for by its name.
-/

/-!
## Names of general categories

The categories and the groups of them that have names of their own, among them the code points of
no category.
-/

namespace StreamQuery.Unicode

namespace Category

/-- The names of a category. -/
def names : Category → List String
  | uppercaseLetter => ["Lu", "Uppercase_Letter"]
  | lowercaseLetter => ["Ll", "Lowercase_Letter"]
  | titlecaseLetter => ["Lt", "Titlecase_Letter"]
  | modifierLetter => ["Lm", "Modifier_Letter"]
  | otherLetter => ["Lo", "Other_Letter"]
  | nonspacingMark => ["Mn", "Nonspacing_Mark"]
  | spacingMark => ["Mc", "Spacing_Mark"]
  | enclosingMark => ["Me", "Enclosing_Mark"]
  | decimalNumber => ["Nd", "Decimal_Number", "digit"]
  | letterNumber => ["Nl", "Letter_Number"]
  | otherNumber => ["No", "Other_Number"]
  | connectorPunctuation => ["Pc", "Connector_Punctuation"]
  | dashPunctuation => ["Pd", "Dash_Punctuation"]
  | openPunctuation => ["Ps", "Open_Punctuation"]
  | closePunctuation => ["Pe", "Close_Punctuation"]
  | initialPunctuation => ["Pi", "Initial_Punctuation"]
  | finalPunctuation => ["Pf", "Final_Punctuation"]
  | otherPunctuation => ["Po", "Other_Punctuation"]
  | mathSymbol => ["Sm", "Math_Symbol"]
  | currencySymbol => ["Sc", "Currency_Symbol"]
  | modifierSymbol => ["Sk", "Modifier_Symbol"]
  | otherSymbol => ["So", "Other_Symbol"]
  | spaceSeparator => ["Zs", "Space_Separator"]
  | lineSeparator => ["Zl", "Line_Separator"]
  | paragraphSeparator => ["Zp", "Paragraph_Separator"]
  | control => ["Cc", "Control", "cntrl"]
  | format => ["Cf", "Format"]
  | privateUse => ["Co", "Private_Use"]

end Category

/-- Unassigned code points. -/
def unassignedSet : CodePointSet :=
  (assignedSet.union (.range 0xD800 0xDFFF)).complement

/-- The groups of categories, with their names. -/
def categoryGroups : List (List String × CodePointSet) :=
  [(["L", "Letter"], letterSet),
   (["LC", "Cased_Letter"],
     Category.anyOf [.uppercaseLetter, .lowercaseLetter, .titlecaseLetter]),
   (["M", "Mark", "Combining_Mark"], markSet),
   (["N", "Number"], numberSet),
   (["P", "Punctuation", "punct"],
     Category.anyOf [.connectorPunctuation, .dashPunctuation, .openPunctuation, .closePunctuation,
       .initialPunctuation, .finalPunctuation, .otherPunctuation]),
   (["S", "Symbol"],
     Category.anyOf [.mathSymbol, .currencySymbol, .modifierSymbol, .otherSymbol]),
   (["Z", "Separator"],
     Category.anyOf [.spaceSeparator, .lineSeparator, .paragraphSeparator]),
   (["C", "Other"],
     (assignedSet.diff (Category.anyOf [.control, .format, .privateUse])).complement),
   (["Cn", "Unassigned"], unassignedSet),
   (["Assigned"], unassignedSet.complement),
   (["Any"], .all),
   (["ASCII"], .range 0 0x7F)]

/-- The code points of the category or the group of categories of a name. -/
def categoryNamed? (loose : String) : Option CodePointSet :=
  match Category.all.find? fun category => namesInclude category.names loose with
  | some category => some category.codePoints
  | none => (categoryGroups.find? fun (names, _) => namesInclude names loose).map (·.2)

/-!
## Properties by name

A property is asked for by a name alone, which is that of a binary property, a general category or
a script, or by the name of a property and the name of one of its values.
-/

/-- A property as a pattern names it. -/
inductive PropertyQuery where
  | named (name : List Char)
  | valued (property value : List Char)
  deriving DecidableEq, Repr

namespace PropertyQuery

/-- The code points of the binary property of a name. -/
def binaryNamed? (loose : String) : Option CodePointSet :=
  (BinaryProperty.all.find? fun property => namesInclude property.names loose).map (·.codePoints)

/-- The script of a name. -/
def scriptNamed? (loose : String) : Option Script :=
  scripts.find? fun script => namesInclude script.names loose

/-- The code points with a value, by the names of the property and of the value. -/
def valueNamed? (property value : String) : Option CodePointSet :=
  match property with
  | "gc" | "generalcategory" => categoryNamed? value
  | "sc" | "script" => (scriptNamed? value).map (·.codePoints)
  | "scx" | "scriptextensions" => (scriptNamed? value).map (·.usedCodePoints)
  | "age" => ageNamed? value
  | "gcb" | "graphemeclusterbreak" =>
    (GraphemeBreak.all.find? fun kind => namesInclude kind.names value).map (·.codePoints)
  | "wb" | "wordbreak" =>
    (WordBreak.all.find? fun kind => namesInclude kind.names value).map (·.codePoints)
  | "sb" | "sentencebreak" =>
    (SentenceBreak.all.find? fun kind => namesInclude kind.names value).map (·.codePoints)
  | _ => none

/-- The code points that a query asks for, if it names a property. A name alone is looked for among
the binary properties, then the categories, then the scripts. -/
def codePoints? : PropertyQuery → Option CodePointSet
  | named name =>
    let loose := looseName name
    match binaryNamed? loose with
    | some set => some set
    | none => match categoryNamed? loose with
      | some set => some set
      | none => (scriptNamed? loose).map (·.codePoints)
  | valued property value => valueNamed? (looseName property) (looseName value)

end PropertyQuery

end StreamQuery.Unicode
