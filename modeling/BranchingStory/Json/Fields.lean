import BranchingStory.Json.Basic
/-!
# Typed documents as trees

What document types are written with: scalars and lists as trees, and fields that are left out when
there is nothing to write.
-/

namespace BranchingStory.Json

/-- A whole number of 64 bits. -/
def ofUInt64 (n : UInt64) : Json := integer n.toNat

/-- A signed number of 64 bits. -/
def ofInt64 (n : Int64) : Json := integer n.toInt

/-- A signed number of 32 bits. -/
def ofInt32 (n : Int32) : Json := integer n.toInt

/-- A list of documents of one type. -/
def ofList {α : Type} (write : α → Json) (items : List α) : Json := array (items.map write)

/-- A value that may be `null`. -/
def ofOption {α : Type} (write : α → Json) : Option α → Json
  | none => null
  | some a => write a

/-- A field that is left out when there is nothing to write. -/
def optionalField {α : Type} (name : String) (write : α → Json) : Option α → Fields
  | none => []
  | some a => [(name, write a)]

/-- A list field that is left out when the list is empty. -/
def listField {α : Type} (name : String) (write : α → Json) : List α → Fields
  | [] => []
  | items => [(name, ofList write items)]

/-- A field that is left out when it is false. -/
def trueField (name : String) (b : Bool) : Fields := if b then [(name, bool true)] else []

end BranchingStory.Json
