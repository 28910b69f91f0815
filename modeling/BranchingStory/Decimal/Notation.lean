import BranchingStory.Decimal.Shortest
import BranchingStory.Text.Blank
/-!
# Numbers as text

Three notations of a double. `documentNumber` is how documents and saves write it: fewest digits,
with a point for ordinary magnitudes and an exponent for the rest. `displayedNumber` is how story
text shows it: no exponent ever, and whole numbers without a point. `looseNumber` is what a text
counts as when it is compared with a number.
-/

namespace BranchingStory

namespace Decimal

/-- The digits with a point in their place and no exponent. `whole` follows a number that needs no
point. -/
def positional (d : Decimal) (whole : List Char) : List Char :=
  let ds := Nat.toDigits 10 d.digits
  let left : Int := ds.length + d.exponent
  if 0 ≤ d.exponent then ds ++ List.replicate d.exponent.toNat '0' ++ whole
  else if 0 < left then ds.take left.toNat ++ '.' :: ds.drop left.toNat
  else '0' :: '.' :: List.replicate (-left).toNat '0' ++ ds

/-- The digits with a point after the first and an exponent whose sign is always written. -/
def scientific (d : Decimal) : List Char :=
  let ds := Nat.toDigits 10 d.digits
  let power : Int := ds.length + d.exponent - 1
  let point := if ds.length = 1 then [] else ['.']
  let sign := if power < 0 then '-' else '+'
  ds.take 1 ++ point ++ ds.drop 1 ++ 'e' :: sign :: Nat.toDigits 10 power.natAbs

/-- Numbers from `0.00001` up to, but not including, `10 ^ 16` are written without an exponent. -/
def document (d : Decimal) : List Char :=
  let left : Int := (Nat.toDigits 10 d.digits).length + d.exponent
  if -5 < left ∧ left ≤ 16 then d.positional ['.', '0'] else d.scientific

end Decimal

/-- How a finite double is written in a document; `none` for the others, which documents cannot
hold. A tie between two shortest decimals goes to the even one. -/
def documentNumber? (x : Float) : Option (List Char) :=
  (Binary64.ofFloat? x).map fun b =>
    let digits :=
      if b.mantissa = 0 then ['0', '.', '0']
      else (Decimal.shortest .toEven b.mantissa b.exponent).document
    if b.negative then '-' :: digits else digits

/-- How a number shows in story text. Whole numbers below `10 ^ 15` in magnitude are integers, with
no negative zero; all others have every digit of their shortest form. -/
def displayedNumber (x : Float) : String :=
  match Binary64.ofFloat? x with
  | none => if x.isNaN then "NaN" else if x < 0 then "-Infinity" else "Infinity"
  | some b =>
    let digits := String.ofList ((Decimal.shortest .up b.mantissa b.exponent).positional [])
    let full := if b.negative then "-" ++ digits else digits
    match b.toInt? with
    | some n => if n.natAbs < Nat.pow 10 15 then toString n else full
    | none => full

/-! ## Reading a text as a number -/

/-- The exponent part of a numeral, sign included; it needs a digit. -/
def exponentPart? (text : List Char) : Option Int :=
  let (negative, digits) := match text with
    | '-' :: rest => (true, rest)
    | '+' :: rest => (false, rest)
    | rest => (false, rest)
  if digits.isEmpty ∨ ¬ digits.all Char.isDigit then none
  else
    let n : Int := Nat.ofDigitChars 10 digits 0
    some (if negative then -n else n)

/-- An unsigned numeral: digits with at most one point, at least one digit in all, and maybe an
exponent. -/
def numeral? (text : List Char) : Option Decimal :=
  let whole := text.takeWhile Char.isDigit
  let rest := text.dropWhile Char.isDigit
  let (fraction, rest) := match rest with
    | '.' :: tail => (tail.takeWhile Char.isDigit, tail.dropWhile Char.isDigit)
    | _ => ([], rest)
  if whole.isEmpty && fraction.isEmpty then none
  else
    let digits := Nat.ofDigitChars 10 (whole ++ fraction) 0
    let power? := match rest with
      | [] => some 0
      | c :: tail => if c = 'e' ∨ c = 'E' then exponentPart? tail else none
    power?.map fun power => ⟨digits, power - fraction.length⟩

/-- A numeral or, in any case, the name of an infinity or of a NaN; with a sign or without. -/
def signedNumber? (text : List Char) : Option Float :=
  let (negative, body) := match text with
    | '-' :: rest => (true, rest)
    | '+' :: rest => (false, rest)
    | rest => (false, rest)
  match numeral? body with
  | some d => some (d.toFloat negative)
  | none =>
    let word := body.map Char.toLower
    if word = "inf".toList ∨ word = "infinity".toList then
      some (Binary64.toFloat negative Binary64.infinityBits)
    else if word = "nan".toList then some (0.0 / 0.0)
    else none

/-- The number a text counts as in a comparison: blank text is zero, and text that is no number is
a NaN, which equals nothing. -/
def looseNumber (text : String) : Float :=
  let body := Text.trim text.toList
  if body.isEmpty then 0.0 else (signedNumber? body).getD (0.0 / 0.0)

end BranchingStory
