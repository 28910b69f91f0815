import BranchingStory.Decimal.Scaling
import BranchingStory.Json.Basic
import BranchingStory.Json.Fault
import BranchingStory.Json.Outline
/-!
# Reading JSON

A text is read character by character by a machine with a stack: `Reader.step` takes one character,
`Reader.finish` says what the text was once it has ended, and `Json.read` folds the one over a text
and asks the other. The stack holds the arrays and objects that are still open. Nothing is read
twice and nothing is looked up ahead, so the fault that is reported is the first one in the text.

What a fault is depends on the outline of the document: parts that are skipped may hold what no
value can. The tree has something in its place there that nobody will look at.
-/

namespace BranchingStory.Json

/-! ## Numbers -/

/-- How far a numeral has been read. -/
inductive Phase where
  | sign
  | zero
  | whole
  | point
  | fraction
  | mark
  | powerSign
  | power
deriving DecidableEq, Repr

/-- The part of a numeral that has been read. Only as many digits are kept as 64 bits hold, without
the point; the number is `digits * 10 ^ (scale + power)`, where the power has a sign of its own.
`full` tells that a digit was dropped since the numeral or its fraction began. -/
structure Numeral where
  phase : Phase
  negative : Bool
  digits : Nat := 0
  scale : Int := 0
  full : Bool := false
  powerNegative : Bool := false
  power : Nat := 0
deriving DecidableEq, Repr

namespace Numeral

/-- A digit appended to a number. -/
def appendDigit (n : Nat) (c : Char) : Nat := 10 * n + (c.toNat - '0'.toNat)

/-- The numeral that starts with a character, if one can. -/
def start? (c : Char) : Option Numeral :=
  if c = '-' then some { phase := .sign, negative := true }
  else if c = '0' then some { phase := .zero, negative := false }
  else if c.isDigit then some { phase := .whole, negative := false, digits := appendDigit 0 c }
  else none

/-- The numeral with one more digit before the point, or after it. A digit that is not kept counts
before the point only, and no later digit of the same part is kept then. -/
def pushDigit (n : Numeral) (fraction : Bool) (c : Char) : Numeral :=
  let digits := appendDigit n.digits c
  let phase : Phase := if fraction then .fraction else .whole
  if n.full ∨ UInt64.size ≤ digits then
    { n with phase, full := true, scale := if fraction then n.scale else n.scale + 1 }
  else { n with phase, digits, scale := if fraction then n.scale - 1 else n.scale }

/-- The numeral with one more digit of the power. -/
def pushPower (n : Numeral) (c : Char) : Numeral :=
  { n with phase := .power, power := appendDigit n.power c }

/-- The numeral with a point. -/
def pushPoint (n : Numeral) : Numeral := { n with phase := .point, full := false }

/-- The numeral with one more character, if the character belongs to it. -/
def push? (n : Numeral) (c : Char) : Option Numeral :=
  let isMark := c = 'e' ∨ c = 'E'
  match n.phase with
  | .sign =>
    if c = '0' then some { n with phase := .zero }
    else if c.isDigit then some (n.pushDigit false c) else none
  | .zero =>
    if c = '.' then some n.pushPoint
    else if isMark then some { n with phase := .mark } else none
  | .whole =>
    if c.isDigit then some (n.pushDigit false c)
    else if c = '.' then some n.pushPoint
    else if isMark then some { n with phase := .mark } else none
  | .point => if c.isDigit then some (n.pushDigit true c) else none
  | .fraction =>
    if c.isDigit then some (n.pushDigit true c)
    else if isMark then some { n with phase := .mark } else none
  | .mark =>
    if c = '+' then some { n with phase := .powerSign }
    else if c = '-' then some { n with phase := .powerSign, powerNegative := true }
    else if c.isDigit then some (n.pushPower c) else none
  | .powerSign | .power => if c.isDigit then some (n.pushPower c) else none

/-- Whether the numeral may end here before the character `c`. A leading zero has no digit after
it. -/
def endsBefore (n : Numeral) (c : Char) : Bool :=
  match n.phase with
  | .zero => !c.isDigit
  | .whole | .fraction | .power => true
  | .sign | .point | .mark | .powerSign => false

/-- Whether the numeral may end the text. -/
def isComplete (n : Numeral) : Bool :=
  match n.phase with
  | .zero | .whole | .fraction | .power => true
  | .sign | .point | .mark | .powerSign => false

/-- Whether no point and no exponent was read, and no digit dropped. -/
def isWhole (n : Numeral) : Bool := (n.phase = .zero ∨ n.phase = .whole) ∧ !n.full

/-- The value of a complete numeral. A whole number between `-2 ^ 63` and `2 ^ 64` is an integer,
save for a negative zero; everything else is a double, unless it is too large for one. -/
def toJson? (n : Numeral) : Option Json :=
  let whole : Int := if n.negative then -n.digits else n.digits
  let fits := Int64.minValue.toInt ≤ whole ∧ whole < UInt64.size
  if n.isWhole ∧ fits ∧ ¬ (n.negative ∧ n.digits = 0) then some (.integer whole)
  else
    let power : Int := if n.powerNegative then -n.power else n.power
    (Decimal.scaled? n.negative ⟨n.digits, n.scale + power⟩).map .real

end Numeral

/-! ## Strings -/

/-- How far an escape in a string has been read. The second half of a surrogate pair is awaited
with the value of the first. -/
inductive Escape where
  | plain
  | backslash
  | hex (lead : Option Nat) (bytes : Nat) (value : Option Nat)
  | awaitBackslash (lead : Nat)
  | awaitMark (lead : Nat)
deriving DecidableEq, Repr

/-- The part of a string that has been read, last character first. A `strict` one takes surrogates
in pairs only. -/
structure Quoted where
  strict : Bool := true
  chars : List Char := []
  escape : Escape := .plain
deriving DecidableEq, Repr

/-- What reading one character of a string leads to. -/
inductive QuotedStep where
  | more (q : Quoted)
  | closed (q : Quoted)
  | fault (f : Fault)
deriving Repr

/-- The value of a hexadecimal digit. -/
def hexValue? (c : Char) : Option Nat :=
  let n := c.toNat
  if c.isDigit then some (n - '0'.toNat)
  else if 'a' ≤ c ∧ c ≤ 'f' then some (n - 'a'.toNat + 10)
  else if 'A' ≤ c ∧ c ≤ 'F' then some (n - 'A'.toNat + 10)
  else none

namespace Quoted

/-- The string with one more character, out of any escape. -/
def append (q : Quoted) (c : Char) : Quoted :=
  { q with chars := c :: q.chars, escape := .plain }

/-- A character outside escapes. -/
def stepPlain (q : Quoted) (c : Char) : QuotedStep :=
  if c = '"' then .closed q
  else if c = '\\' then .more { q with escape := .backslash }
  else if c.toNat < 0x20 then .fault .controlCharacter
  else .more (q.append c)

/-- The character after a backslash. -/
def stepBackslash (q : Quoted) (c : Char) : QuotedStep :=
  if c = '"' ∨ c = '\\' ∨ c = '/' then .more (q.append c)
  else if c = 'b' then .more (q.append '\x08')
  else if c = 'f' then .more (q.append '\x0c')
  else if c = 'n' then .more (q.append '\n')
  else if c = 'r' then .more (q.append '\r')
  else if c = 't' then .more (q.append '\t')
  else if c = 'u' then .more { q with escape := .hex none 0 (some 0) }
  else .fault .invalidEscape

/-- Four hexadecimal digits read to the end, after the first half of a pair or not. Where pairs do
not matter, half of one counts as a NUL. -/
def closeHex (q : Quoted) (lead : Option Nat) (value : Nat) : QuotedStep :=
  let isLow := 0xdc00 ≤ value ∧ value ≤ 0xdfff
  let isHigh := 0xd800 ≤ value ∧ value ≤ 0xdbff
  match lead with
  | some high =>
    if isLow then
      .more (q.append (Char.ofNat (0x10000 + (high - 0xd800) * 0x400 + (value - 0xdc00))))
    else .fault .loneSurrogate
  | none =>
    if q.strict ∧ isLow then .fault .loneSurrogate
    else if q.strict ∧ isHigh then .more { q with escape := .awaitBackslash value }
    else .more (q.append (Char.ofNat value))

/-- A character of the four after `\u`. They are judged once four bytes have come: until then the
text may end. -/
def stepHex (q : Quoted) (lead : Option Nat) (bytes : Nat) (value : Option Nat) (c : Char) :
    QuotedStep :=
  let value := do return 16 * (← value) + (← hexValue? c)
  let bytes := bytes + c.utf8Size
  if bytes < 4 then .more { q with escape := .hex lead bytes value }
  else
    match value with
    | some n => q.closeHex lead n
    | none => .fault .invalidEscape

/-- One character of a string. -/
def step (q : Quoted) (c : Char) : QuotedStep :=
  match q.escape with
  | .plain => q.stepPlain c
  | .backslash => q.stepBackslash c
  | .hex lead bytes value => q.stepHex lead bytes value c
  | .awaitBackslash lead =>
    if c = '\\' then .more { q with escape := .awaitMark lead } else .fault .brokenSurrogatePair
  | .awaitMark lead =>
    if c = 'u' then .more { q with escape := .hex (some lead) 0 (some 0) }
    else .fault .brokenSurrogatePair

/-- The text of a closed string. -/
def toText (q : Quoted) : String := String.ofList q.chars.reverse

end Quoted

/-! ## The machine -/

/-- The deepest nesting of arrays and objects that a text may have. -/
def maxDepth : Nat := 127

/-- An array or object that is still open, with what it holds so far, last first, and what is looked
at: of every item of an array, or of an object. -/
inductive Frame where
  | items (done : List Json) (item : Outline)
  | fields (done : List (String × Json)) (key : String) (outline : Outline)
deriving Repr

/-- What the machine is about to read. -/
inductive Mode where
  | value
  | firstItem
  | firstKey
  | nextKey
  | colon
  | next
  | key (q : Quoted)
  | string (q : Quoted)
  | number (n : Numeral)
  | word (rest : List Char) (value : Json)
  | done (value : Json)
deriving Repr

/-- The state of the machine: what is looked at of the whole text, the place in the text, the open
arrays and objects, innermost first, and what comes next. -/
structure Reader where
  root : Outline
  position : Position := {}
  stack : List Frame := []
  mode : Mode := .value
deriving Repr

namespace Reader

/-- What is looked at of the value that comes next or is being read. -/
def outline (r : Reader) : Outline :=
  match r.stack with
  | [] => r.root
  | .items _ item :: _ => item
  | .fields _ key outline :: _ => outline.field key

/-- What is looked at of the innermost object. -/
def objectOutline (r : Reader) : Outline :=
  match r.stack with
  | .fields _ _ outline :: _ => outline
  | _ => .whole

/-- Stops at a fault. -/
def fail {α : Type} (r : Reader) (fault : Fault) : Except Misreading α :=
  .error ⟨fault, r.position⟩

/-- Goes on in another mode. -/
def go (r : Reader) (mode : Mode) : Except Misreading Reader := .ok { r with mode := mode }

/-- Puts a finished value where it belongs. -/
def put (r : Reader) (value : Json) : Reader :=
  match r.stack with
  | [] => { r with mode := .done value }
  | .items done item :: rest =>
    { r with stack := .items (value :: done) item :: rest, mode := .next }
  | .fields done key outline :: rest =>
    { r with stack := .fields ((key, value) :: done) key outline :: rest, mode := .next }

/-- Opens an array or object. The depth of what is skipped does not matter. -/
def openFrame (r : Reader) (frame : Frame) (mode : Mode) : Except Misreading Reader :=
  if r.outline.isSkipped ∨ r.stack.length < maxDepth then
    .ok { r with stack := frame :: r.stack, mode := mode }
  else r.fail .nestedTooDeep

/-- Closes the innermost array or object. -/
def close (r : Reader) : Reader :=
  match r.stack with
  | [] => r
  | .items done _ :: rest => { r with stack := rest }.put (.array done.reverse)
  | .fields done _ _ :: rest => { r with stack := rest }.put (.object done.reverse)

/-- Begins a key. -/
def openKey (r : Reader) : Except Misreading Reader :=
  r.go (.key { strict := !r.objectOutline.isSkipped })

/-- Takes note of a finished key. -/
def putKey (r : Reader) (key : String) : Reader :=
  match r.stack with
  | .fields done _ outline :: rest =>
    { r with stack := .fields done key outline :: rest, mode := .colon }
  | _ => r

/-- Puts a finished number. One that is too large may only be skipped. -/
def putNumber (r : Reader) (n : Numeral) : Except Misreading Reader :=
  match n.toJson? with
  | some value => .ok (r.put value)
  | none => if r.outline.isSkipped then .ok (r.put .null) else r.fail .numberOutOfRange

/-- The characters that may stand between tokens. -/
def isSpace (c : Char) : Bool := c = ' ' ∨ c = '\n' ∨ c = '\t' ∨ c = '\r'

/-- The first character of a value. -/
def stepValue (r : Reader) (c : Char) (otherwise : Fault) : Except Misreading Reader :=
  let outline := r.outline
  if ¬ outline.admits c then r.fail otherwise
  else
    match Numeral.start? c with
    | some n => r.go (.number n)
    | none =>
      if c = '"' then r.go (.string { strict := !outline.isSkipped })
      else if c = '[' then r.openFrame (.items [] outline.item) .firstItem
      else if c = '{' then r.openFrame (.fields [] "" outline) .firstKey
      else if c = 't' then r.go (.word ['r', 'u', 'e'] (.bool true))
      else if c = 'f' then r.go (.word ['a', 'l', 's', 'e'] (.bool false))
      else if c = 'n' then r.go (.word ['u', 'l', 'l'] .null)
      else r.fail otherwise

/-- The first character of the first key, or the end of an object without fields. -/
def stepFirstKey (r : Reader) (c : Char) : Except Misreading Reader :=
  if c = '"' then r.openKey
  else if c ≠ '}' then r.fail .keyNotString
  else if r.objectOutline.admitsNoFields then .ok r.close
  else r.fail .expectedValue

/-- A character that is no blank, where no string, number or word is open. -/
def stepToken (r : Reader) (c : Char) : Except Misreading Reader :=
  match r.mode, r.stack with
  | .value, .items _ _ :: _ =>
    r.stepValue c (if c = ']' then .trailingComma else .expectedValue)
  | .value, _ => r.stepValue c .expectedValue
  | .firstItem, _ => if c = ']' then .ok r.close else r.stepValue c .expectedValue
  | .firstKey, _ => r.stepFirstKey c
  | .nextKey, _ =>
    if c = '"' then r.openKey else r.fail (if c = '}' then .trailingComma else .keyNotString)
  | .colon, _ => if c = ':' then r.go .value else r.fail .expectedColon
  | .next, .items _ _ :: _ =>
    if c = ',' then r.go .value else if c = ']' then .ok r.close else r.fail .expectedListEnd
  | .next, .fields _ _ _ :: _ =>
    if c = ',' then r.go .nextKey else if c = '}' then .ok r.close else r.fail .expectedObjectEnd
  | _, _ => r.fail .trailingCharacters

/-- A character after a number that it does not belong to. -/
def stepAfterNumber (r : Reader) (n : Numeral) (c : Char) : Except Misreading Reader := do
  if ¬ n.endsBefore c then r.fail .invalidNumber
  else
    let r ← r.putNumber n
    if isSpace c then return r else r.stepToken c

/-- Takes one character. -/
def step (before : Reader) (c : Char) : Except Misreading Reader :=
  let r := { before with position := before.position.advance c }
  match r.mode with
  | .string q =>
    match q.step c with
    | .more q => r.go (.string q)
    | .closed q => .ok (r.put (.text q.toText))
    | .fault f => r.fail f
  | .key q =>
    match q.step c with
    | .more q => r.go (.key q)
    | .closed q => .ok (r.putKey q.toText)
    | .fault f => r.fail f
  | .number n =>
    match n.push? c with
    | some n => r.go (.number n)
    | none => r.stepAfterNumber n c
  | .word (expected :: rest) value =>
    if c ≠ expected then r.fail .expectedWord
    else if rest.isEmpty then .ok (r.put value) else r.go (.word rest value)
  | .word [] value => .ok (r.put value)
  | _ => if isSpace c then .ok r else r.stepToken c

/-- A number ends with the text, if it may. -/
def settle (r : Reader) : Except Misreading Reader :=
  match r.mode with
  | .number n => if n.isComplete then r.putNumber n else .ok r
  | _ => .ok r

/-- What the text was, now that it has ended. Half a number is only unfinished where it is looked
at; where it is skipped it is no number. -/
def finish (r : Reader) : Except Misreading Json := do
  let r ← r.settle
  match r.mode, r.stack with
  | .done value, _ => return value
  | .string _, _ | .key _, _ => r.fail .endInString
  | .firstItem, _ | .next, .items _ _ :: _ => r.fail .endInList
  | .firstKey, _ | .colon, _ | .next, _ => r.fail .endInObject
  | .number _, _ => r.fail (if r.outline.isSkipped then .invalidNumber else .endInValue)
  | .value, _ | .nextKey, _ | .word _ _, _ => r.fail .endInValue

end Reader

/-- The value that a text holds, for a document of which as much is looked at as the outline
says. -/
def read (outline : Outline) (text : String) : Except Misreading Json :=
  text.toList.foldlM Reader.step { root := outline } >>= Reader.finish

end BranchingStory.Json
