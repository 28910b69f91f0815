import BranchingStory.Terminal.Arguments
import BranchingStory.Terminal.Desk
import BranchingStory.Terminal.Report
import BranchingStory.Terminal.Session
/-!
# The program

What the program does for its arguments, once the file of the story was read: it ends with a report,
or it begins to play. `Desk.run` is the whole program on files and lines that are known beforehand,
with a clock that jumps to the times waited for.
-/

namespace BranchingStory.Terminal

/-- What the program does. -/
inductive Course where
  | over (report : Report)
  | playing (turn : Turn) (verdict : Verdict)

/-- The engine for a story, with the settings from the options. -/
def Options.engine (o : Options) (story : Story) : Engine :=
  let settings : Settings := {}
  let settings := o.historyLimit.elim settings fun n => settings.withHistoryLimit n.toNat
  { story, settings, observers := 1 }

/-- Begins a task, given what came of reading its file. -/
def Task.begin (task : Task) (now : Int64) (contents : Except String String) : Course :=
  match readStory task.file contents with
  | .error e => .over (({} : Report).failed e)
  | .ok story =>
    match task with
    | .check _ => .over (checkStory story)
    | .overview _ => .over { output := storyOverview story }
    | .play _ o =>
      match firstTurn (o.engine story) now o.stage o.chapter with
      | .ok (turn, verdict) => .playing turn verdict
      | .error e => .over (({} : Report).failed e)

/-- The report on arguments that make no task. -/
def badArguments : Report := { code := 2, errors := "error: invalid arguments\n" }

/-! ## The whole program -/

namespace Desk

/-- The text among what a turn does on the outside. -/
def shown (output : List Output) : String :=
  String.join (output.map fun
    | .text text => text
    | .waitUntil _ => "")

/-- Plays on, with the lines that the player will type. -/
def playOn : List String → Desk → Report → Turn → Verdict → Report
  | lines, d, report, t, verdict =>
    let report := { report with output := report.output ++ shown t.output }
    match verdict, lines with
    | .finished, _ | .prompt, [] => report
    | .failed e, _ => report.failed e
    | .crashed o, _ => report.crashed o
    | .prompt, line :: rest =>
      let t : Turn := { session := t.session, now := t.now }
      match t.obey (Command.ofLine line) with
      | .quit => report
      | .done t =>
        let (t, verdict) := t.conclude
        playOn rest d report t verdict
      | .write file text next =>
        match d.write file text with
        | .ok d =>
          let (t, verdict) := (next (.ok ())).conclude
          playOn rest d report t verdict
        | .error e =>
          let (t, verdict) := (next (.error e.message)).conclude
          playOn rest d report t verdict
      | .read file next =>
        let (t, verdict) := (next ((d.read file).mapError FileError.message)).conclude
        playOn rest d report t verdict

/-- The lines of a text. A last line without a line break is one, unless it is empty. -/
def inputLines (text : String) : List String :=
  let lines := text.toList.splitOn '\n'
  (if lines.getLast? = some [] then lines.dropLast else lines).map String.ofList

/-- Runs the program. -/
def run (d : Desk) (args : List String) (input : String) (now : Int64) : Report :=
  match Task.ofArguments? args with
  | none => badArguments
  | some task =>
    match task.begin now ((d.read task.file).mapError FileError.message) with
    | .over report => report
    | .playing t verdict => playOn (inputLines input) d {} t verdict

end Desk

end BranchingStory.Terminal
