import BranchingStory.Document.Story
import BranchingStory.Play.Engine
import BranchingStory.Play.Overflow
import BranchingStory.Story.Validation
import BranchingStory.Terminal.Table
/-!
# Checking and showing a story

Two reports on a story: `checkStory` on its faults, `storyOverview` on what there is in it.
-/

namespace BranchingStory.Terminal

/-- What a program leaves behind when it has ended. -/
structure Report where
  code : UInt8 := 0
  output : String := ""
  errors : String := ""
deriving DecidableEq, Repr, Inhabited

/-- The report with an error that ended the program. -/
def Report.failed (r : Report) (message : String) : Report :=
  { r with code := 1, errors := r.errors ++ s!"error: {message}\n" }

/-- The report with an overflow at which the program stopped. -/
def Report.crashed (r : Report) (o : Overflow) : Report :=
  { r with code := 101, errors := r.errors ++ s!"{o.message}\n" }

/-- Reads the story in a file, given what came of reading the file. -/
def readStory (file : String) : Except String String → Except String Story
  | .error e => .error s!"cannot read {file}: {e}"
  | .ok text =>
    match Story.parse text with
    | .ok s => .ok s
    | .error e => .error s!"{file}: invalid story document: {e.message}"

/-- A number with a noun, which takes an `s` except for one. -/
def counted (n : Nat) (noun : String) : String :=
  if n = 1 then s!"{n} {noun}" else s!"{n} {noun}s"

/-! ## Checking -/

/-- The issues of a story and how many there are of each sort. -/
def issueSummary (errors warnings : Nat) : String :=
  let errorCount := counted errors "error"
  let warningCount := counted warnings "warning"
  if 0 < errors then s!"  {errorCount}, {warningCount}\n"
  else if 0 < warnings then s!"  {warningCount}\n"
  else ""

/-- A line that says how much there is in a story. -/
def sizeLine (s : Story) : String :=
  let chapters := s.stages.flatMap (·.chapters)
  let nodes := chapters.flatMap (·.nodes)
  let stageCount := counted s.stages.length "stage"
  let chapterCount := counted chapters.length "chapter"
  let nodeCount := counted nodes.length "node"
  s!"  {stageCount}, {chapterCount}, {nodeCount}\n"

/-- Reports the issues of a story. It fails if there is an error among them. -/
def checkStory (s : Story) : Report :=
  let issues := s.issues
  let errors := (issues.filter (·.isError)).length
  let warnings := issues.length - errors
  let listed := String.join (issues.map fun i => s!"  {i.text}\n")
  let report : Report := { errors := listed ++ issueSummary errors warnings }
  if 0 < errors then report.failed "validation failed with errors"
  else { report with output := s!"  All checks passed for '{s.name}'.\n" ++ sizeLine s }

/-! ## Showing -/

/-- The rows for the chapters of a stage. A stage without any has a row as well. -/
def chapterRows (s : Stage) : List (List String) :=
  if s.chapters.isEmpty then [[s.id, "-", s.title, "0", "0", "-"]]
  else s.chapters.map fun c =>
    [s.id, c.id, c.title, toString c.nodes.length, toString (c.nodesOfType .choice).length,
      c.entry?.getD "-"]

/-- The row for a declaration. -/
def declarationRow (scope : String) (d : Declaration) : List String :=
  [d.id, d.name, d.type.word, d.initial.render, scope]

/-- The rows for all declarations, those for the whole story first. -/
def declarationRows (s : Story) : List (List String) :=
  s.declared.map (declarationRow "global")
    ++ (s.stages.flatMap (·.chapters)).flatMap fun c => c.declared.map (declarationRow c.id)

/-- The part of the overview on variables. -/
def declarationText (rows : List (List String)) : String :=
  if rows.isEmpty then "  No variables.\n"
  else
    let table : Table := { header := ["Id", "Name", "Type", "Default", "Scope"], rows }
    table.text ++ s!"\n  {rows.length} variables\n"

/-- What there is in a story: its stages, chapters and variables. -/
def storyOverview (s : Story) : String :=
  let e : Engine := { story := s }
  let title := s!"  {s.name} [v{s.version}]\n  mode: {e.mode} | theme: {e.theme}\n\n"
  if s.stages.isEmpty then title ++ "  No stages.\n"
  else
    let table : Table := {
      header := ["Stage", "Chapter", "Title", "Nodes", "Choices", "Start"]
      rows := s.stages.flatMap chapterRows }
    title ++ table.text ++ "\n" ++ declarationText (declarationRows s)

end BranchingStory.Terminal
