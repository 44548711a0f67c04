import LeasePool.Text.Blank
import LeasePool.Text.Decimal
import LeasePool.Text.Scan
import LeasePool.Text.Utf8
import LeasePool.Json.Basic
import LeasePool.Json.Reader
import LeasePool.Json.Printer
import LeasePool.Time.Span
import LeasePool.Time.Date
import LeasePool.Time.Instant
import LeasePool.Time.Stamp
import LeasePool.Time.Clock
import LeasePool.Table
import LeasePool.Lease.Metadata
import LeasePool.Lease.Basic
import LeasePool.Lease.Codec
import LeasePool.Lease.Naming
import LeasePool.Lease.Edit
import LeasePool.Config.Error
import LeasePool.Config.Schedule
import LeasePool.Config.Settings
import LeasePool.Error
import LeasePool.Membership.Event
import LeasePool.Membership.Gate
import LeasePool.Membership.Coordinator
import LeasePool.Membership.Readiness
import LeasePool.Membership.Identity
import LeasePool.Store.Call
import LeasePool.Store.Memory
import LeasePool.Operation
import LeasePool.Pool.Topology
import LeasePool.Pool.Guard
import LeasePool.Pool.Leases
import LeasePool.Pool.Participant
import LeasePool.Text.Quoted
import LeasePool.Text.Layout
import LeasePool.World.Fault
import LeasePool.World.Scene
import LeasePool.World.Ticker
import LeasePool.World.Answer
import LeasePool.World.Task
import LeasePool.World.Basic
import LeasePool.World.Report
import LeasePool.World.Step
import LeasePool.Toml.Basic
import LeasePool.Toml.Reader
import LeasePool.Toml.Printer
import LeasePool.Config.Process
import LeasePool.Files
import LeasePool.Http.Message
import LeasePool.Http.Status
import LeasePool.Http.Url
import LeasePool.Kubernetes.Server
import LeasePool.Process.Options
import LeasePool.Process.Address
import LeasePool.Process.Health
import LeasePool.Process.Startup
import LeasePool.Process.Run
import LeasePool.Main
import LeasePool.Proofs.Store.Versions
import LeasePool.Proofs.Fleet.Basic
import LeasePool.Proofs.Fleet.History
import LeasePool.Proofs.Fleet.Terms
import LeasePool.Proofs.Fleet.Discipline
import LeasePool.Proofs.Fleet.Succession
import LeasePool.Proofs.Fleet.Closed
import LeasePool.Proofs.Fleet.Exclusion
import LeasePool.Proofs.Fleet.Membership
import LeasePool.Proofs.Fleet.MemberCycle
import LeasePool.Proofs.Fleet.Others
import LeasePool.Proofs.Fleet.Stages
import LeasePool.Proofs.Fleet.Attendance
import LeasePool.Proofs.Fleet.Tenure
import LeasePool.Proofs.Fleet.Telling
import LeasePool.Proofs.Fleet.Loss
import LeasePool.Proofs.Fleet.Contest
import LeasePool.Proofs.Fleet.Allotment
import LeasePool.Proofs.Store.Twins
import LeasePool.Proofs.Pool.Matching
import LeasePool.Proofs.Fleet.Shadows
import LeasePool.Proofs.Fleet.Apart
import LeasePool.Proofs.Pool.Requests
import LeasePool.Proofs.Membership.Announcements
import LeasePool.Proofs.Membership.Lifeline
import LeasePool.Proofs.Membership.Lobby
import LeasePool.Proofs.Membership.Waiting
import LeasePool.Proofs.World.Elapsed
import LeasePool.Proofs.World.Runs
import LeasePool.Proofs.World.Tasks
import LeasePool.Proofs.World.Pace
import LeasePool.Proofs.World.Guards
import LeasePool.Proofs.World.Crowd
import LeasePool.Proofs.World.Concerns
import LeasePool.Proofs.World.Lifecycle
import LeasePool.Proofs.World.Schedules
import LeasePool.Proofs.World.Alone
import LeasePool.Proofs.World.Stumbling
import LeasePool.Proofs.Time.Calendar
import LeasePool.Proofs.Time.Stamps
import LeasePool.Proofs.Json.Values
import LeasePool.Proofs.Json.Layout
import LeasePool.Proofs.Json.Numbers
import LeasePool.Proofs.Json.Texts
import LeasePool.Proofs.Lease.Codec
import LeasePool.Proofs.Kubernetes.Bodies
import LeasePool.Proofs.Kubernetes.Answers
import LeasePool.Proofs.World.Failures
import LeasePool.Proofs.Pool.LookUps
import LeasePool.Proofs.Pool.Tending
import LeasePool.Proofs.Pool.Reconciliation
import LeasePool.Proofs.Fleet.HandOvers
import LeasePool.Proofs.Pool.Choosing
import LeasePool.Proofs.World.Conversations
import LeasePool.Proofs.Membership.Evidence
import LeasePool.Proofs.Pool.Races
import LeasePool.Proofs.Store.Ledger
import LeasePool.Proofs.Fleet.Acquisitions
import LeasePool.Proofs.Pool.Leadership
import LeasePool.Proofs.Pool.Ownership
import LeasePool.Proofs.Config.Spans
import LeasePool.Proofs.Pool.Hints
import LeasePool.Proofs.Pool.Remembering
import LeasePool.Proofs.Process.Startup
import LeasePool.Proofs.Text.Digits
import LeasePool.Proofs.Text.Blanks
import LeasePool.Proofs.Text.Utf8
import LeasePool.Proofs.Lease.Selectors
import LeasePool.Proofs.Lease.Owners
import LeasePool.Proofs.Time.Precision
import LeasePool.Proofs.Membership.Identities
import LeasePool.Proofs.Toml.Texts
import LeasePool.Proofs.Toml.Values
import LeasePool.Proofs.Toml.Lines
import LeasePool.Proofs.Toml.Tables
import LeasePool.Proofs.Toml.Documents
import LeasePool.Proofs.Config.Documents
