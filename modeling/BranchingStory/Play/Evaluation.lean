import BranchingStory.Play.Store
/-!
# When conditions hold

Evaluation never fails. What is missing or of the wrong type has a default, and a condition of an
unknown kind holds, so that a story made for a newer player does not lock its choices.
-/

namespace BranchingStory

/-- An ordering of two values holds for numbers only. -/
def Value.compareNumbers (order : Float → Float → Bool) (a b : Value) : Bool :=
  match a, b with
  | .number x, .number y => order x y
  | _, _ => false

namespace Comparison

/-- What is compared when a variable is: the length of a list, and for a variable that does not
exist the zero of the type of the right side. -/
def leftSide (left right : Option Value) : Value :=
  match left, right with
  | some (.list items), _ => .number (Decimal.wholeToFloat items.length)
  | some value, _ => value
  | none, some (.list _) | none, none => .bool false
  | none, some value => value.type.zero

/-- Whether a comparison of two present values holds. -/
def between (left right : Value) : Comparison → Bool
  | equal => left.looseEq right
  | different => !left.looseEq right
  | greater => left.compareNumbers (fun a b => a > b) right
  | atLeast => left.compareNumbers (fun a b => a ≥ b) right
  | less => left.compareNumbers (fun a b => a < b) right
  | atMost => left.compareNumbers (fun a b => a ≤ b) right

/-- Whether a comparison holds. Nothing at all on the right is different from everything. -/
def holds (c : Comparison) (left right : Option Value) : Bool :=
  match right with
  | none => c == different
  | some value => c.between (leftSide left right) value

end Comparison

/-- Whether a number is as asked for. An exact value decides alone. Bounds are inclusive, and a NaN
is within all of them. -/
def Bounds.contain (b : Bounds) (x : Float) : Bool :=
  match b.value with
  | some (.number exact) => exact == x
  | some _ => false
  | none => !b.min.any (x < ·) && !b.max.any (x > ·)

namespace Store

/-- The number a variable holds. -/
def number? (s : Store) (id : String) : Option Float := (s.get? id).bind Value.number?

/-- A stat with a variable of its own is held against bounds if that variable holds a number. -/
def statHolds (s : Store) (id : String) (bounds : Bounds) : Bool :=
  (s.number? id).all bounds.contain

/-- A stat of a character or a faction counts as zero as long as no number is known for it. -/
def relationHolds (s : Store) (subject : Option String) (suffix : String) (bounds : Bounds) :
    Bool :=
  (given subject).any fun id => bounds.contain ((s.number? (id ++ suffix)).getD 0)

/-- Whether a flag is set to something that counts as true. -/
def flagTruthy (s : Store) (key : String) : Bool := (s.flag? key).any Value.truthy

/-- Whether a flag has exactly the value asked for, or if none is asked for, one that counts as
true. -/
def flagHolds (s : Store) (key : String) : Option Value → Bool
  | some expected => (s.flag? key).any (·.same expected)
  | none => s.flagTruthy key

/-- Whether a condition holds. -/
def holds (s : Store) : Condition → Bool
  | .compare id comparison value =>
    (given id).any fun id => (comparison.getD .equal).holds (s.get? id) value
  | .gold bounds => s.statHolds "gold" bounds
  | .hp bounds => s.statHolds "hp" bounds
  | .flag key value => (given key).any fun key => s.flagHolds key value
  | .choiceMade choice => (given choice).any s.hasMadeChoice
  | .affection character bounds => s.relationHolds character "_affection" bounds
  | .reputation faction bounds => s.relationHolds faction "_reputation" bounds
  | .relic value => value.any fun relic => relic.truthy && s.flagTruthy ("relic_" ++ relic.display)
  | .character _ => true
  | .unknown => true

end Store

end BranchingStory
