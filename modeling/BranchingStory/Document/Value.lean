import BranchingStory.Json.Fields
import BranchingStory.Json.Form
import BranchingStory.KeyMap
import BranchingStory.Story.Value
/-!
# Values in documents

A value is a JSON boolean, number, string or array of these, without a mark of its type. Every
number is read as a double.
-/

namespace BranchingStory

namespace Json

/-- An object as a map from its names. Of fields with the same name the last one counts. -/
def Form.keyMap {α : Type} (form : Form α) : Form (KeyMap α) where
  outline := .record [] form.outline
  read j := do
    let entries ← (← Form.fields j).mapM fun (key, value) => return (key, ← form.read value)
    return .ofList entries

/-- A map as an object, in the order of its keys. -/
def ofKeyMap {α : Type} (write : α → Json) (m : KeyMap α) : Json :=
  object (m.entries.map fun (key, value) => (key, write value))

/-- A map field that is left out when the map is empty. -/
def mapField {α : Type} (name : String) (write : α → Json) (m : KeyMap α) : Fields :=
  if m.isEmpty then [] else [(name, ofKeyMap write m)]

end Json

open Json (Form Reading)

namespace ValueType

/-- Reads the word for a type. -/
def form : Form ValueType := .word all word

/-- Writes the word for a type. -/
def toJson (t : ValueType) : Json := .text t.word

end ValueType

namespace Value

mutual

/-- A tree as a value. -/
def ofTree : Json → Reading Value
  | .bool b => .ok (bool b)
  | .integer n => .ok (number (Decimal.wholeToFloat n))
  | .real x => .ok (number x)
  | .text s => .ok (text s)
  | .array items => (ofTrees items).map list
  | .null | .object _ => Json.misfit "a value"

/-- Trees as values. -/
def ofTrees : List Json → Reading (List Value)
  | [] => .ok []
  | item :: rest => do return (← ofTree item) :: (← ofTrees rest)

end

/-- Reads a value. -/
def form : Form Value where read := ofTree

mutual

/-- Writes a value. -/
def toJson : Value → Json
  | bool b => .bool b
  | number x => .real x
  | text s => .text s
  | list items => .array (toJsons items)

/-- Writes each of some values. -/
def toJsons : List Value → List Json
  | [] => []
  | item :: rest => item.toJson :: toJsons rest

end

end Value

end BranchingStory
