import Chronicle.Aggregate.Counter
import Chronicle.Config
import Chronicle.Database.Unreachable
import Chronicle.Http.Service
import Chronicle.Index.Lemmas
import Chronicle.Json.Reader
import Chronicle.Json.Writer
import Chronicle.Simulation.Script
import Chronicle.Simulation.World
import Chronicle.Proofs.Log.Behind
import Chronicle.Proofs.View.Refold
import Chronicle.Proofs.View.Shipped
import Chronicle.Proofs.Loop.Fleet
import Chronicle.Proofs.Loop.Turn
import Chronicle.Proofs.Watermarks
import Chronicle.Proofs.Loop.Position
import Chronicle.Proofs.Loop.Faults
import Chronicle.Proofs.Codec.Payload
import Chronicle.Proofs.Loop.Overlap
import Chronicle.Proofs.Aggregate.Replay
import Chronicle.Proofs.Command.Deed
import Chronicle.Proofs.Codec.Schema
import Chronicle.Proofs.Member.Roles
import Chronicle.Proofs.Command.Ledger
import Chronicle.Proofs.Command.Answer
import Chronicle.Proofs.Command.Refinement
import Chronicle.Proofs.Command.Decision
import Chronicle.Proofs.Command.Desk
import Chronicle.Proofs.Command.Serial
import Chronicle.Proofs.View.Rooted
import Chronicle.Proofs.Loop.Drive
import Chronicle.Proofs.Leases
import Chronicle.Proofs.Loop.Lapse
import Chronicle.Proofs.View.Entry
import Chronicle.Proofs.View.Agreement
import Chronicle.Proofs.View.Owners
import Chronicle.Proofs.Command.Default
import Chronicle.Proofs.Command.Seeders
import Chronicle.Proofs.Loop.Rebuild
import Chronicle.Proofs.Loop.Former
import Chronicle.Proofs.Log.Appends
import Chronicle.Proofs.Codec.Canonical
import Chronicle.Proofs.View.Legible
import Chronicle.Proofs.Loop.Passage
import Chronicle.Proofs.Loop.Unpaged
import Chronicle.Proofs.View.Restart
import Chronicle.Proofs.View.Held
import Chronicle.Proofs.Log.Apt
import Chronicle.Proofs.Log.Legal
import Chronicle.Proofs.Loop.Upkeep
import Chronicle.Proofs.View.Scope
import Chronicle.Proofs.Loop.Discipline
import Chronicle.Proofs.Command.Pending
import Chronicle.Proofs.Command.Batch
import Chronicle.Proofs.Aggregate.Acceptance
import Chronicle.Proofs.Log.Paging
import Chronicle.Proofs.Loop.Report
import Chronicle.Proofs.View.Columns
import Chronicle.Proofs.Loop.Pause
import Chronicle.Proofs.View.RowsOverTime
import Chronicle.Proofs.WatermarksOverTime
import Chronicle.Proofs.Member.Membership
import Chronicle.Proofs.Text.Numeral
import Chronicle.Proofs.Text.Trim
import Chronicle.Proofs.Time.Deadline
import Chronicle.Proofs.Config
