import BranchingStory.Terminal.Command
/-!
# Arguments

The arguments of the program: what to do, the file of the story, and options anywhere after it. An
option that takes a value has it in the next argument, or after `=`, or for the short form right
behind the letter.
-/

namespace BranchingStory.Terminal

/-- The options that take a value. -/
inductive ValueOption where
  | stage
  | chapter
  | historyLimit
deriving DecidableEq, Repr

namespace ValueOption

/-- The option with a long name. -/
def ofName? : String → Option ValueOption
  | "stage" => some stage
  | "chapter" => some chapter
  | "history-limit" => some historyLimit
  | _ => none

/-- The option with a letter. -/
def ofLetter? : Char → Option ValueOption
  | 's' => some stage
  | 'c' => some chapter
  | _ => none

end ValueOption

/-- The sorts of arguments. -/
inductive Argument where
  | word
  | switch
  | valued (option : ValueOption) (value : Option String)
  | invalid
deriving DecidableEq, Repr

namespace Argument

/-- What the letters behind a dash mean. -/
def ofLetters : List Char → Argument
  | [] => switch
  | 'v' :: rest => ofLetters rest
  | c :: rest =>
    match ValueOption.ofLetter? c, rest with
    | none, _ => invalid
    | some option, [] => valued option none
    | some option, '=' :: value => valued option (some (String.ofList value))
    | some option, value => valued option (some (String.ofList value))

/-- What a name behind two dashes means. -/
def ofLongName (text : List Char) : Argument :=
  let name := String.ofList (text.takeWhile (· ≠ '='))
  match ValueOption.ofName? name, text.dropWhile (· ≠ '=') with
  | some option, _ :: value => valued option (some (String.ofList value))
  | some option, [] => valued option none
  | none, _ => if name = "verbose" then switch else invalid

/-- What an argument means. -/
def ofText (text : String) : Argument :=
  match text.toList with
  | ['-'] => word
  | '-' :: '-' :: name => ofLongName name
  | '-' :: letters => ofLetters letters
  | _ => word

end Argument

/-- The options, and the words that are none. -/
structure Options where
  stage : Option String := none
  chapter : Option String := none
  historyLimit : Option UInt64 := none
  words : List String := []
deriving DecidableEq, Repr, Inhabited

namespace Options

/-- The options with a value for one of them. -/
def set? (o : Options) (option : ValueOption) (value : String) : Option Options :=
  match option with
  | .stage => some { o with stage := some value }
  | .chapter => some { o with chapter := some value }
  | .historyLimit => (wholeNumber? value.toList).map fun n => { o with historyLimit := some n }

/-- The options with one more word. -/
def addWord (o : Options) (word : String) : Options := { o with words := o.words ++ [word] }

/-- Takes in arguments. What follows two dashes alone is no option. -/
def scan : Options → List String → Option Options
  | o, [] => some o
  | o, arg :: rest =>
    if arg = "--" then some { o with words := o.words ++ rest }
    else
      match Argument.ofText arg with
      | .word => scan (o.addWord arg) rest
      | .switch => scan o rest
      | .valued option (some value) => (o.set? option value).bind fun o => scan o rest
      | .valued option none =>
        match rest with
        | value :: rest => (o.set? option value).bind fun o => scan o rest
        | [] => none
      | .invalid => none

end Options

/-- What the program is asked to do. -/
inductive Task where
  | check (file : String)
  | overview (file : String)
  | play (file : String) (options : Options)
deriving DecidableEq, Repr

namespace Task

/-- The file of the story. -/
def file : Task → String
  | check file | overview file | play file _ => file

/-- The task that the arguments are for. -/
def ofArguments? (args : List String) : Option Task := do
  let o ← Options.scan {} args
  match o.words with
  | ["check", file] => some (check file)
  | ["show", file] => some (overview file)
  | ["play", file] => some (play file o)
  | _ => none

end Task

end BranchingStory.Terminal
