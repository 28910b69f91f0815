/-!
# What can be wrong with a text

A text that is no JSON value has a `Fault` at a `Position`; together they are a `Misreading`. The
text of a document may also be sound JSON of the wrong shape, which is the third `Category` of a
`DocumentError`.
-/

namespace BranchingStory.Json

/-- A place in a text. Lines count from 1, columns from 0 and in bytes. -/
structure Position where
  line : Nat := 1
  column : Nat := 0
deriving DecidableEq, Repr, Inhabited

/-- The place after one more character. -/
def Position.advance (p : Position) (c : Char) : Position :=
  if c = '\n' then ⟨p.line + 1, 0⟩ else ⟨p.line, p.column + c.utf8Size⟩

/-- The ways in which a text can fail to be a JSON value. -/
inductive Fault where
  | endInValue
  | endInList
  | endInObject
  | endInString
  | expectedColon
  | expectedListEnd
  | expectedObjectEnd
  | expectedWord
  | expectedValue
  | invalidEscape
  | invalidNumber
  | numberOutOfRange
  | controlCharacter
  | keyNotString
  | loneSurrogate
  | trailingComma
  | trailingCharacters
  | brokenSurrogatePair
  | nestedTooDeep
deriving DecidableEq, Repr, Inhabited

namespace Fault

/-- Whether the text only ended too early, so that some continuation of it might be sound. -/
def isEnd : Fault → Bool
  | endInValue | endInList | endInObject | endInString => true
  | _ => false

/-- The fault in words. -/
def message : Fault → String
  | endInValue => "EOF while parsing a value"
  | endInList => "EOF while parsing a list"
  | endInObject => "EOF while parsing an object"
  | endInString => "EOF while parsing a string"
  | expectedColon => "expected `:`"
  | expectedListEnd => "expected `,` or `]`"
  | expectedObjectEnd => "expected `,` or `\x7d`"
  | expectedWord => "expected ident"
  | expectedValue => "expected value"
  | invalidEscape => "invalid escape"
  | invalidNumber => "invalid number"
  | numberOutOfRange => "number out of range"
  | controlCharacter => "control character (\\u0000-\\u001F) found while parsing a string"
  | keyNotString => "key must be a string"
  | loneSurrogate => "lone leading surrogate in hex escape"
  | trailingComma => "trailing comma"
  | trailingCharacters => "trailing characters"
  | brokenSurrogatePair => "unexpected end of hex escape"
  | nestedTooDeep => "recursion limit exceeded"

end Fault

/-- A fault and the place where it showed. -/
structure Misreading where
  fault : Fault
  position : Position
deriving DecidableEq, Repr, Inhabited

/-- The misreading in words. -/
def Misreading.message (m : Misreading) : String :=
  s!"{m.fault.message} at line {m.position.line} column {m.position.column}"

/-- The three sorts of document errors: the text is unfinished, it is malformed, or it is sound but
does not fit the type. -/
inductive Category where
  | unfinished
  | malformed
  | misfit
deriving DecidableEq, Repr

/-- Why a text is not the document it should be. -/
inductive DocumentError where
  | text (misreading : Misreading)
  | shape (expected : String)
deriving DecidableEq, Repr, Inhabited

namespace DocumentError

/-- The category of an error. -/
def category : DocumentError → Category
  | text m => if m.fault.isEnd then .unfinished else .malformed
  | shape _ => .misfit

/-- The error in words. -/
def message : DocumentError → String
  | text m => m.message
  | shape expected => s!"expected {expected}"

end DocumentError

end BranchingStory.Json
