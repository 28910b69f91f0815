import BranchingStory.Decimal.Binary64
import BranchingStory.Decimal.Notation
import BranchingStory.Decimal.Scaling
import BranchingStory.Decimal.Shortest
import BranchingStory.Document.Backlog
import BranchingStory.Document.Condition
import BranchingStory.Document.Ending
import BranchingStory.Document.Node
import BranchingStory.Document.Operation
import BranchingStory.Document.Picture
import BranchingStory.Document.Playthrough
import BranchingStory.Document.Scene
import BranchingStory.Document.Store
import BranchingStory.Document.Story
import BranchingStory.Document.Value
import BranchingStory.Json.Basic
import BranchingStory.Json.Fault
import BranchingStory.Json.Fields
import BranchingStory.Json.Form
import BranchingStory.Json.Outline
import BranchingStory.Json.Reader
import BranchingStory.Json.Writer
import BranchingStory.KeyMap
import BranchingStory.Main
import BranchingStory.Play.Backlog
import BranchingStory.Play.Clock
import BranchingStory.Play.Commands
import BranchingStory.Play.Courses
import BranchingStory.Play.Ending
import BranchingStory.Play.Engine
import BranchingStory.Play.Evaluation
import BranchingStory.Play.Execution
import BranchingStory.Play.Interpolation
import BranchingStory.Play.Overflow
import BranchingStory.Play.Playthrough
import BranchingStory.Play.Saving
import BranchingStory.Play.Scene
import BranchingStory.Play.Store
import BranchingStory.Play.Timers
import BranchingStory.Play.Walk
import BranchingStory.Story.Chapters
import BranchingStory.Story.Condition
import BranchingStory.Story.Node
import BranchingStory.Story.Operation
import BranchingStory.Story.Picture
import BranchingStory.Story.Validation
import BranchingStory.Story.Value
import BranchingStory.Terminal.Arguments
import BranchingStory.Terminal.Command
import BranchingStory.Terminal.Desk
import BranchingStory.Terminal.Program
import BranchingStory.Terminal.Report
import BranchingStory.Terminal.Screen
import BranchingStory.Terminal.Session
import BranchingStory.Terminal.Table
import BranchingStory.Text.Blank
import BranchingStory.Text.Identifier
import BranchingStory.Proofs.Numerals
import BranchingStory.Proofs.Rereading
import BranchingStory.Proofs.Failing
import BranchingStory.Proofs.Fields
import BranchingStory.Proofs.Documents
import BranchingStory.Proofs.Entering
import BranchingStory.Proofs.Courses
import BranchingStory.Proofs.Timers
import BranchingStory.Proofs.Draining
import BranchingStory.Proofs.Runs
import BranchingStory.Proofs.Walks
import BranchingStory.Proofs.Transitions
import BranchingStory.Proofs.Staging
import BranchingStory.Proofs.Firings
import BranchingStory.Proofs.Images
import BranchingStory.Proofs.Slots
import BranchingStory.Proofs.Settling
import BranchingStory.Proofs.Loading
import BranchingStory.Proofs.Guises
import BranchingStory.Proofs.Continuing
import BranchingStory.Proofs.Restarting
import BranchingStory.Proofs.Waiting
import BranchingStory.Proofs.Paths
import BranchingStory.Proofs.Procedures
import BranchingStory.Proofs.Observers
import BranchingStory.Proofs.Departures
import BranchingStory.Proofs.Endings
import BranchingStory.Proofs.Trimming
import BranchingStory.Proofs.Finishing
import BranchingStory.Proofs.Doubles
import BranchingStory.Proofs.Accepted
import BranchingStory.Proofs.Restoring
import BranchingStory.Proofs.Stories
import BranchingStory.Proofs.Batches
import BranchingStory.Proofs.Offers
import BranchingStory.Proofs.Picks
import BranchingStory.Proofs.Exchanges
import BranchingStory.Proofs.Tokens
import BranchingStory.Proofs.Startable
import BranchingStory.Proofs.Prompts
import BranchingStory.Proofs.Headroom
import BranchingStory.Proofs.Operations
import BranchingStory.Proofs.Equality
import BranchingStory.Proofs.Flaws
import BranchingStory.Proofs.Pending
import BranchingStory.Proofs.Saves
import BranchingStory.Proofs.Sequels
