import BranchingStory.Json.Reader
import BranchingStory.Proofs.Doubles
/-!
# What a text that is read holds

A text that is read gives a tree whose doubles are finite, whose whole numbers fit 64 bits and that
is nested no deeper than allowed, as far as it is looked at. `Json.Legible` says so of a tree. It is
kept by every character that the machine takes: of the open arrays and objects all finished parts
are legible, and each of them is opened where another level is allowed.
-/

namespace BranchingStory.Json

/-- Whether what is looked at of a tree may have been read where so many levels are allowed. -/
inductive Legible : Outline → Nat → Json → Prop
  | skipped {o : Outline} (h : o.isSkipped) (room : Nat) (j : Json) : Legible o room j
  | null (o : Outline) (room : Nat) : Legible o room .null
  | bool (o : Outline) (room : Nat) (b : Bool) : Legible o room (.bool b)
  | text (o : Outline) (room : Nat) (s : String) : Legible o room (.text s)
  | integer (o : Outline) (room : Nat) {n : Int} (hlow : Int64.minValue.toInt ≤ n)
      (hhigh : n < UInt64.size) : Legible o room (.integer n)
  | real (o : Outline) (room : Nat) {x : Float} (h : x.isFinite) : Legible o room (.real x)
  | array {o : Outline} {room : Nat} {items : List Json} (h : ∀ j ∈ items, Legible o.item room j) :
      Legible o (room + 1) (.array items)
  | object {o : Outline} {room : Nat} {fields : Fields}
      (h : ∀ f ∈ fields, Legible (o.field f.1) room f.2) : Legible o (room + 1) (.object fields)

/-! ## Numbers -/

namespace Numeral

end Numeral

/-! ## The machine -/

namespace Reader

/-- What is looked at of the next value, where these arrays and objects are open. -/
def outlineIn (root : Outline) (stack : List Frame) : Outline := ({ root, stack } : Reader).outline

/-- Whether another level is allowed, where these arrays and objects are open. -/
def Allowed (root : Outline) (stack : List Frame) : Prop :=
  (outlineIn root stack).isSkipped ∨ stack.length < maxDepth

/-- Whether all that is finished in the open arrays and objects is legible. -/
def Gathers (root : Outline) : List Frame → Prop
  | [] => True
  | .items done item :: rest =>
    item = (outlineIn root rest).item ∧ Allowed root rest ∧
      (∀ j ∈ done, Legible item (maxDepth - (rest.length + 1)) j) ∧ Gathers root rest
  | .fields done _ outline :: rest =>
    outline = outlineIn root rest ∧ Allowed root rest ∧
      (∀ f ∈ done, Legible (outline.field f.1) (maxDepth - (rest.length + 1)) f.2) ∧
      Gathers root rest

/-- Whether what the machine is reading will be legible. -/
def Promises (root : Outline) : Mode → Prop
  | .number n => n.digits < UInt64.size
  | .word _ v => ∀ o room, Legible o room v
  | .done v => Legible root maxDepth v
  | _ => True

/-- Whether the machine reads for an outline and all that it has finished is legible. -/
structure Grounded (o : Outline) (r : Reader) : Prop where
  root : r.root = o
  stack : Gathers o r.stack

/-- Whether what the machine is reading will be legible as well. -/
structure Sound (o : Outline) (r : Reader) : Prop extends Grounded o r where
  mode : Promises o r.mode

section
variable {o : Outline} {r : Reader} (h : r.Grounded o)
include h

end

end Reader

end BranchingStory.Json
