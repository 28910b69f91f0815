import BranchingStory.Decimal.Notation
/-!
# Values

What variables and flags hold: booleans, doubles, texts and lists of values. There are three
equalities. `=` is equality of the representation, `Value.same` differs from it only in the numbers
(a NaN is not the same as itself, the two zeros are), and `Value.looseEq` is the forgiving one that
conditions use, under which `"5"`, `5` and `[5]` are equal.
-/

namespace BranchingStory

/-- A value of a variable or a flag. -/
inductive Value where
  | bool (b : Bool)
  | number (x : Float)
  | text (s : String)
  | list (items : List Value)
deriving Repr, Inhabited

/-- The types of values, as declarations name them. -/
inductive ValueType where
  | bool
  | number
  | text
  | list
deriving DecidableEq, Repr, Inhabited

namespace ValueType

/-- All types. -/
def all : List ValueType := [bool, number, text, list]

/-- The word for a type. -/
def word : ValueType → String
  | bool => "boolean"
  | number => "number"
  | text => "string"
  | list => "array"

/-- The value that a variable of a type has before anything is known about it. -/
def zero : ValueType → Value
  | bool => .bool false
  | number => .number 0
  | text => .text ""
  | list => .list []

end ValueType

namespace Value

/-! ## Equality -/

mutual

/-- Equality of values is decided part by part. -/
def decEq : (a b : Value) → Decidable (a = b)
  | bool a, bool b => if h : a = b then isTrue (h ▸ rfl) else isFalse (fun e => h (bool.inj e))
  | number a, number b =>
    if h : a = b then isTrue (h ▸ rfl) else isFalse (fun e => h (number.inj e))
  | text a, text b => if h : a = b then isTrue (h ▸ rfl) else isFalse (fun e => h (text.inj e))
  | list a, list b =>
    match decEqItems a b with
    | isTrue h => isTrue (h ▸ rfl)
    | isFalse h => isFalse (fun e => h (list.inj e))
  | bool _, number _ | bool _, text _ | bool _, list _ | number _, bool _ | number _, text _
  | number _, list _ | text _, bool _ | text _, number _ | text _, list _ | list _, bool _
  | list _, number _ | list _, text _ => isFalse nofun

/-- Equality of lists of values. -/
def decEqItems : (a b : List Value) → Decidable (a = b)
  | [], [] => isTrue rfl
  | a :: as, b :: bs =>
    match decEq a b, decEqItems as bs with
    | isTrue h, isTrue hs => isTrue (h ▸ hs ▸ rfl)
    | isFalse h, _ => isFalse (fun e => h (List.cons.inj e).1)
    | _, isFalse hs => isFalse (fun e => hs (List.cons.inj e).2)
  | [], _ :: _ | _ :: _, [] => isFalse nofun

end

instance : DecidableEq Value := decEq

mutual

/-- Equality where numbers are compared as numbers: both zeros are the same and a NaN is not the
same as anything. -/
def same : Value → Value → Bool
  | bool a, bool b => a == b
  | number a, number b => a == b
  | text a, text b => a == b
  | list a, list b => sameItems a b
  | _, _ => false

/-- Lists of the same length with the same items. -/
def sameItems : List Value → List Value → Bool
  | [], [] => true
  | a :: as, b :: bs => same a b && sameItems as bs
  | _, _ => false

end

/-! ## Parts -/

/-- The type of a value. -/
def type : Value → ValueType
  | bool _ => .bool
  | number _ => .number
  | text _ => .text
  | list _ => .list

/-- The number, if the value is one. -/
def number? : Value → Option Float
  | number x => some x
  | _ => none

/-- The boolean, if the value is one. -/
def bool? : Value → Option Bool
  | bool b => some b
  | _ => none

/-- The text, if the value is one. -/
def text? : Value → Option String
  | text s => some s
  | _ => none

/-- The items, if the value is a list. -/
def items? : Value → Option (List Value)
  | list items => some items
  | _ => none

/-- Whether a value counts as true: all do except `false`, zero, NaN and the empty text. An empty
list counts as true. -/
def truthy : Value → Bool
  | bool b => b
  | number x => x != 0 && !x.isNaN
  | text s => s != ""
  | list _ => true

/-! ## Text -/

mutual

/-- A value as text. The items of a list are joined with commas, lists in it included. -/
def display : Value → String
  | bool b => if b then "true" else "false"
  | number x => displayedNumber x
  | text s => s
  | list items => String.intercalate "," (displays items)

/-- Each of some values as text. -/
def displays : List Value → List String
  | [] => []
  | item :: rest => item.display :: displays rest

end

/-- A value as story text shows it: as `display` does, but with a blank after each comma of the
outermost list. -/
def render : Value → String
  | list items => String.intercalate ", " (displays items)
  | other => other.display

/-! ## Forgiving equality -/

/-- What a value counts as beside a value that is no list: a list counts as its text. -/
def flat : Value → Value
  | list items => text (list items).display
  | other => other

/-- The number that a value counts as. A text that is no number counts as a NaN. -/
def toNumber : Value → Float
  | bool b => if b then 1 else 0
  | number x => x
  | text s => looseNumber s
  | list items => looseNumber (list items).display

/-- Equality of values that are no lists: two booleans or two texts are compared as they are,
everything else as numbers. -/
def looseEqFlat : Value → Value → Bool
  | bool a, bool b => a == b
  | text a, text b => a == b
  | a, b => a.toNumber == b.toNumber

/-- The forgiving equality. Two lists are compared item by item, without forgiving anything. -/
def looseEq : Value → Value → Bool
  | list a, list b => sameItems a b
  | a, b => looseEqFlat a.flat b.flat

end Value

end BranchingStory
