import BranchingStory.Text.Blank
/-!
# What a player types

One line is one command. An empty line goes on with the story.
-/

namespace BranchingStory.Terminal

/-- A command of a player. -/
inductive Command where
  | quit
  | help
  | store
  | log
  | restart
  | advance
  | choose (index : UInt64)
  | save (file : String)
  | load (file : String)
  | unknown (text : String)
deriving DecidableEq, Repr, Inhabited

/-- A whole number of 64 bits: digits, maybe after a plus sign. -/
def wholeNumber? (text : List Char) : Option UInt64 :=
  let digits := match text with
    | '+' :: rest => rest
    | _ => text
  if digits.isEmpty ∨ ¬ digits.all Char.isDigit then none
  else
    let n := Nat.ofDigitChars 10 digits 0
    if n < UInt64.size then some (UInt64.ofNat n) else none

/-- The words and the numbers that are commands, once the blanks around them are gone. -/
def commandWord (text : List Char) : Command :=
  match String.ofList text with
  | "q" | "quit" => .quit
  | "help" => .help
  | "vars" => .store
  | "log" => .log
  | "restart" => .restart
  | "" => .advance
  | word =>
    match wholeNumber? text with
    | some n => if n = 0 then .unknown word else .choose (n - 1)
    | none => .unknown word

/-- The name that follows a word, if the text begins with that word and a blank. -/
def nameAfter? (word : String) (text : List Char) : Option String :=
  let start := word.toList ++ [' ']
  if start.isPrefixOf text then some (String.ofList (Text.trim (text.drop start.length)))
  else none

/-- The command in a line. -/
def Command.ofLine (line : String) : Command :=
  let text := Text.trim line.toList
  match nameAfter? "save" text, nameAfter? "load" text with
  | some file, _ => .save file
  | none, some file => .load file
  | none, none => commandWord text

/-- The commands there are, line by line. -/
def helpLines : List String :=
  ["  <enter>      continue",
    "  <number>     pick a choice",
    "  vars         show variables and flags",
    "  log          show the transcript so far",
    "  save <file>  write the current run to a file",
    "  load <file>  resume a run from a file",
    "  restart      start the chapter over",
    "  q            quit"]

/-- The commands there are. -/
def helpText : String := String.join (helpLines.map (· ++ "\n"))

end BranchingStory.Terminal
