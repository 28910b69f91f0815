import BranchingStory.Terminal.Program
import Std.Time.DateTime.Timestamp
/-!
# The command line

Reads arguments, files and lines, and shows what the program answers. Nothing is decided here.
-/

namespace BranchingStory.Terminal

/-- The text for an error of the system, with its number. -/
def systemText (code : UInt32) (details : String) : String :=
  let number := (if code < 0x80000000 then code else 0 - code).toNat
  match FileError.all.find? (·.number? = some number) with
  | some e => e.message
  | none => s!"{details} (os error {number})"

/-- The text for what went wrong with a file. -/
def errorText : IO.Error → String
  | .noFileOrDirectory _ code details => systemText code details
  | .permissionDenied _ code details => systemText code details
  | .inappropriateType _ code details => systemText code details
  | .resourceExhausted _ code details => systemText code details
  | .invalidArgument _ code details => systemText code details
  | .otherError code details => systemText code details
  | .userError _ => "stream did not contain valid UTF-8"
  | other => toString other

/-- An action on a file, with the text for what went wrong. -/
def attempt {α : Type} (file : String) (action : IO α) : IO (Except String α) := do
  if hasNul file then return .error FileError.nulInName.message
  try return .ok (← action) catch e => return .error (errorText e)

/-- The time on the clock of the system, in milliseconds. -/
def currentTime : IO Int64 :=
  return Int64.ofInt (← Std.Time.Timestamp.now).toMillisecondsSinceUnixEpoch.toInt

/-- The longest time to sleep at a stretch, in milliseconds. -/
def longestSleep : Int := 86400000

/-- Sleeps until a time has come. -/
partial def sleepUntil (time : Int64) : IO Unit := do
  let missing := time.toInt - (← currentTime).toInt
  if 0 < missing then
    IO.sleep (UInt32.ofNat (min missing longestSleep).toNat)
    sleepUntil time

/-- Does what a turn does on the outside. -/
def perform (output : Output) : IO Unit := do
  match output with
  | .text text =>
    let out ← IO.getStdout
    out.putStr text
    out.flush
  | .waitUntil time => sleepUntil time

/-- Shows a report. The answer is the code to end with. -/
def deliver (r : Report) : IO UInt32 := do
  IO.print r.output
  IO.eprint r.errors
  return r.code.toUInt32

/-- Plays on until the player stops or the story ends. -/
partial def playLoop (t : Turn) (verdict : Verdict) : IO UInt32 := do
  t.output.forM perform
  match verdict with
  | .finished => return 0
  | .failed e => deliver (({} : Report).failed e)
  | .crashed o => deliver (({} : Report).crashed o)
  | .prompt =>
    let line ← (← IO.getStdin).getLine
    if line.isEmpty then return 0
    let t : Turn := { session := t.session, now := ← currentTime }
    match t.obey (Command.ofLine line) with
    | .quit => return 0
    | .done t =>
      let (t, verdict) := t.conclude
      playLoop t verdict
    | .write file text next =>
      let (t, verdict) := (next (← attempt file (IO.FS.writeFile file text))).conclude
      playLoop t verdict
    | .read file next =>
      let (t, verdict) := (next (← attempt file (IO.FS.readFile file))).conclude
      playLoop t verdict

end BranchingStory.Terminal

open BranchingStory.Terminal in
/-- Runs the program. -/
def main (args : List String) : IO UInt32 := do
  match Task.ofArguments? args with
  | none => deliver badArguments
  | some task =>
    match task.begin (← currentTime) (← attempt task.file (IO.FS.readFile task.file)) with
    | .over report => deliver report
    | .playing t verdict => playLoop t verdict
