import StepFlow.Text.Blank
import StepFlow.Text.Quoted
import StepFlow.Text.Search
import StepFlow.NodeId
import StepFlow.Value.Compact
import StepFlow.TypeDesc.Display
import StepFlow.TypeDesc.Admits
import StepFlow.TypeDesc.Inspect
import StepFlow.TypeDesc.Hashing
import StepFlow.Record.TypeRecord
import StepFlow.Record.OutputRecord
import StepFlow.Orchestration.Reachable
import StepFlow.Orchestration.Dot
import StepFlow.Orchestration.Chart
import StepFlow.Dot.Statement
import StepFlow.Validation.Survey
import StepFlow.Build.Call
import StepFlow.Build.Registry
import StepFlow.Inspect
import StepFlow.Run.Schedule
import StepFlow.Run.Sequential
import StepFlow.Render
import StepFlow.Proofs.Build.Assembled
import StepFlow.Proofs.TypeDesc.Preorder
import StepFlow.Proofs.TypeDesc.Subsumption
import StepFlow.Proofs.TypeDesc.Identity
import StepFlow.Proofs.TypeDesc.Unambiguous
import StepFlow.Proofs.Record.RoundTrip
import StepFlow.Proofs.Text.Characters
import StepFlow.Proofs.Render.Blocks
import StepFlow.Proofs.Render.Colors
import StepFlow.Proofs.Orchestration.Reached
import StepFlow.Proofs.Orchestration.Ranked
import StepFlow.Proofs.Orchestration.BreadthFirst
import StepFlow.Proofs.Orchestration.Circular
import StepFlow.Proofs.Orchestration.Charted
import StepFlow.Proofs.Dot.Reading
import StepFlow.Proofs.Orchestration.Drawn
import StepFlow.Proofs.Validation.Findings
import StepFlow.Proofs.Validation.Coherent
import StepFlow.Proofs.Validation.Phases
import StepFlow.Proofs.Build.Strict
import StepFlow.Proofs.Run.Routing
import StepFlow.Proofs.Run.Turning
import StepFlow.Proofs.Run.Checked
import StepFlow.Proofs.Run.Joining
import StepFlow.Proofs.Run.Outlook
import StepFlow.Proofs.Run.ScheduleIndependence
import StepFlow.Proofs.Run.Course
import StepFlow.Proofs.Run.Recording
import StepFlow.Proofs.Run.Accounting
import StepFlow.Proofs.Run.Failing
import StepFlow.Proofs.Run.Numbering
import StepFlow.Proofs.Run.Hindsight
import StepFlow.Proofs.Run.Refusals
import StepFlow.Proofs.Run.Threshold
import StepFlow.Proofs.Run.Conservative
import StepFlow.Proofs.Run.Beside
import StepFlow.Proofs.Run.Delivery
import StepFlow.Proofs.Build.Carried
import StepFlow.Proofs.Build.Record
import StepFlow.Proofs.Run.Orderly
import StepFlow.Proofs.Run.Shape
import StepFlow.Proofs.Run.Cancelling
import StepFlow.Proofs.Run.Containment
import StepFlow.Proofs.Run.Standing
import StepFlow.Proofs.Run.Mirrored
import StepFlow.Proofs.Run.Unreached
import StepFlow.Proofs.Run.Rearranged
import StepFlow.Proofs.Run.Ledger
import StepFlow.Proofs.Run.Bounded
import StepFlow.Proofs.Run.Pacing
import StepFlow.Proofs.Run.Descending
import StepFlow.Proofs.Run.Recast
import StepFlow.Proofs.Run.Serial
import StepFlow.Proofs.Run.Absorbing
import StepFlow.Proofs.Run.Settings
import StepFlow.Proofs.Run.Reassembly
