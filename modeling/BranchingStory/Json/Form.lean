import BranchingStory.Decimal.Shortest
import BranchingStory.Json.Reader
/-!
# Trees as typed documents

A `Form` is how documents of a type are read: what is looked at, and what comes of the tree. A
`Record` is the same for some fields of an object; records are put together field by field. A field
is looked up by its name, or by one of several names for the same thing; given twice it is an error,
and fields that nobody asks for are skipped. An optional field may be `null` or missing, a field
with a default may only be missing.
-/

namespace BranchingStory.Json

/-- The result of reading a tree, or a text, as a document of some type. -/
abbrev Reading := Except DocumentError

/-- Refuses what is not as expected. -/
def misfit {α : Type} (expected : String) : Reading α := .error (.shape expected)

/-- How documents of a type are read. -/
structure Form (α : Type) where
  outline : Outline := .whole
  read : Json → Reading α

/-- A document of some type from its text. -/
def Form.parse {α : Type} (form : Form α) (text : String) : Reading α :=
  match Json.read form.outline text with
  | .ok j => form.read j
  | .error m => .error (.text m)

namespace Form

/-! ## Scalars -/

/-- A boolean. -/
def boolean : Form Bool where
  read
    | .bool b => .ok b
    | _ => misfit "a boolean"

/-- A text. -/
def text : Form String where
  read
    | .text s => .ok s
    | _ => misfit "a string"

/-- A number of any notation. -/
def double : Form Float where
  read
    | .integer n => .ok (Decimal.wholeToFloat n)
    | .real x => .ok x
    | _ => misfit "a number"

/-- A whole number between two others, written as one. -/
def integerBetween (low high : Int) : Form Int where
  read
    | .integer n => if low ≤ n ∧ n ≤ high then .ok n else misfit "an integer in range"
    | _ => misfit "an integer"

/-- What comes of a document is put into another type. -/
def map {α β : Type} (f : α → β) (form : Form α) : Form β where
  outline := form.outline
  read j := (form.read j).map f

/-- A signed integer of 64 bits. -/
def int64 : Form Int64 :=
  (integerBetween Int64.minValue.toInt Int64.maxValue.toInt).map Int64.ofInt

/-- A signed integer of 32 bits. -/
def int32 : Form Int32 :=
  (integerBetween Int32.minValue.toInt Int32.maxValue.toInt).map Int32.ofInt

/-- An unsigned integer of 64 bits. -/
def uint64 : Form UInt64 :=
  (integerBetween 0 (UInt64.size - 1)).map fun n => UInt64.ofNat n.toNat

/-- A word of a fixed vocabulary. -/
def word {α : Type} (all : List α) (word : α → String) : Form α where
  outline := .word false
  read
    | .text s =>
      match all.find? (word · = s) with
      | some a => .ok a
      | none => misfit "a known word"
    | _ => misfit "a word"

/-! ## Containers -/

/-- A list of documents of one type. -/
def list {α : Type} (form : Form α) : Form (List α) where
  outline := .list form.outline
  read
    | .array items => items.mapM form.read
    | _ => misfit "an array"

/-- What a value is that may be `null`. -/
def orNull {α : Type} (form : Form α) : Form (Option α) where
  outline := form.outline.orNull
  read
    | .null => .ok none
    | other => (form.read other).map some

/-- The fields of an object. -/
def fields (j : Json) : Reading Fields :=
  match j with
  | .object fields => .ok fields
  | _ => misfit "an object"

end Form

/-! ## Fields -/

/-- The one field with one of the names, if there is any. -/
def Fields.find (fields : Fields) (names : List String) : Reading (Option Json) :=
  match fields.filter (fun f => names.contains f.1) with
  | [] => .ok none
  | [(_, value)] => .ok (some value)
  | _ => misfit "a field only once"

/-- How some fields of an object are read: what is looked at, field by field, and what comes of
them. -/
structure Record (α : Type) where
  outlines : List (String × Outline)
  read : Fields → Reading α

namespace Record

instance : Applicative Record where
  pure a := ⟨[], fun _ => .ok a⟩
  seq f x :=
    { outlines := f.outlines ++ (x ()).outlines
      read := fun fields => do return (← f.read fields) (← (x ()).read fields) }

/-- A field that must be there, under one of its names. -/
def requiredAs {α : Type} (names : List String) (form : Form α) : Record α where
  outlines := names.map (·, form.outline)
  read fields := do
    match ← fields.find names with
    | some value => form.read value
    | none => misfit "a field that is missing"

/-- A field that must be there. -/
def required {α : Type} (name : String) (form : Form α) : Record α := requiredAs [name] form

/-- A field that may be missing. -/
def withDefault {α : Type} (name : String) (default : α) (form : Form α) : Record α where
  outlines := [(name, form.outline)]
  read fields := do
    match ← fields.find [name] with
    | some value => form.read value
    | none => return default

/-- A field that may be missing or `null`. -/
def optional {α : Type} (name : String) (form : Form α) : Record (Option α) :=
  withDefault name none form.orNull

/-- Whether a field is one of the record. -/
def knows {α : Type} (r : Record α) (name : String) : Bool := r.outlines.any (·.1 = name)

/-- Fields of which one tells how the others are read. -/
def tagged {α τ : Type} (tag : String) (form : Form τ) (cases : τ → Record α) : Record α where
  outlines := []
  read fields := do (cases (← (required tag form).read fields)).read fields

end Record

namespace Form

/-- An object with the fields of a record. All others are skipped. -/
def ofRecord {α : Type} (r : Record α) : Form α where
  outline := .record r.outlines .skipped
  read j := do r.read (← fields j)

/-- An object with the fields of a record that is taken in whole before it is looked at. -/
def ofWhole {α : Type} (r : Record α) : Form α where
  read j := do r.read (← fields j)

/-- An object with fields of its own and those of another record, which are taken in whole before
they are looked at. -/
def ofRecordWith {α β : Type} (own : Record (β → α)) (others : Record β) : Form α where
  outline := .record own.outlines .whole
  read j := do
    let all ← fields j
    return (← own.read all) (← others.read (all.filter fun f => !own.knows f.1))

end Form

end BranchingStory.Json
