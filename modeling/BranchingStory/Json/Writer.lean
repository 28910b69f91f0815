import BranchingStory.Decimal.Notation
import BranchingStory.Json.Basic
/-!
# Writing JSON

Two forms of a tree: `Json.compact`, without a blank, and `Json.indented`, with a line for every
item and field and two spaces for every level. They differ in blanks alone. A double that no
numeral stands for is written `null`.
-/

namespace BranchingStory.Json

/-! ## Scalars -/

/-- A character inside quotes. Quotes, backslashes and control characters are escaped and nothing
else is. -/
def escape (c : Char) : List Char :=
  if c = '"' then ['\\', '"']
  else if c = '\\' then ['\\', '\\']
  else if c = '\x08' then ['\\', 'b']
  else if c = '\x0c' then ['\\', 'f']
  else if c = '\n' then ['\\', 'n']
  else if c = '\r' then ['\\', 'r']
  else if c = '\t' then ['\\', 't']
  else if c.toNat < 0x20 then
    ['\\', 'u', '0', '0', Nat.digitChar (c.toNat / 16), Nat.digitChar (c.toNat % 16)]
  else [c]

/-- A text in quotes. -/
def quoted (s : String) : List Char := '"' :: s.toList.flatMap escape ++ ['"']

/-- The digits of a whole number. -/
def integerText (n : Int) : List Char :=
  if n < 0 then '-' :: Nat.toDigits 10 n.natAbs else Nat.toDigits 10 n.natAbs

/-- The value `null`. -/
def nullText : List Char := ['n', 'u', 'l', 'l']

/-- A value that holds no others. -/
def scalarText : Json → List Char
  | bool true => ['t', 'r', 'u', 'e']
  | bool false => ['f', 'a', 'l', 's', 'e']
  | integer n => integerText n
  | real x => (documentNumber? x).getD nullText
  | text s => quoted s
  | _ => nullText

/-! ## Compact -/

mutual

/-- A tree without blanks. -/
def compactText : Json → List Char
  | array items => '[' :: compactItems items ++ [']']
  | object fields => '{' :: compactFields fields ++ ['}']
  | scalar => scalar.scalarText

/-- Items with commas between them. -/
def compactItems : List Json → List Char
  | [] => []
  | [item] => item.compactText
  | item :: rest => item.compactText ++ ',' :: compactItems rest

/-- Fields with commas between them. -/
def compactFields : List (String × Json) → List Char
  | [] => []
  | [(key, value)] => quoted key ++ ':' :: value.compactText
  | (key, value) :: rest => quoted key ++ ':' :: value.compactText ++ ',' :: compactFields rest

end

/-- The tree in one line. -/
def compact (j : Json) : String := String.ofList j.compactText

/-! ## Indented -/

/-- The start of a line at a level. -/
def newline (level : Nat) : List Char := '\n' :: List.replicate (2 * level) ' '

mutual

/-- A tree whose lines but the first start at a level. -/
def indentedText (level : Nat) : Json → List Char
  | array [] => ['[', ']']
  | array items => '[' :: indentedItems (level + 1) items ++ newline level ++ [']']
  | object [] => ['{', '}']
  | object fields => '{' :: indentedFields (level + 1) fields ++ newline level ++ ['}']
  | scalar => scalar.scalarText

/-- Items, each on its line, with commas between them. -/
def indentedItems (level : Nat) : List Json → List Char
  | [] => []
  | [item] => newline level ++ item.indentedText level
  | item :: rest => newline level ++ item.indentedText level ++ ',' :: indentedItems level rest

/-- Fields, each on its line, with commas between them. -/
def indentedFields (level : Nat) : List (String × Json) → List Char
  | [] => []
  | [(key, value)] => newline level ++ quoted key ++ ':' :: ' ' :: value.indentedText level
  | (key, value) :: rest =>
    newline level ++ quoted key ++ ':' :: ' ' :: value.indentedText level
      ++ ',' :: indentedFields level rest

end

/-- The tree with a line for every item and field. -/
def indented (j : Json) : String := String.ofList (j.indentedText 0)

end BranchingStory.Json
