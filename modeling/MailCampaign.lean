import MailCampaign.Activity
import MailCampaign.Campaign
import MailCampaign.CommandLine
import MailCampaign.Cursor.Basic
import MailCampaign.Cursor.Store
import MailCampaign.Cursor.Transition
import MailCampaign.Cursor.Verdict
import MailCampaign.Engagement
import MailCampaign.Engine.Basic
import MailCampaign.Engine.Dispatch
import MailCampaign.Engine.Host
import MailCampaign.Engine.Launch
import MailCampaign.Fault
import MailCampaign.Flow.Basic
import MailCampaign.Flow.Graph
import MailCampaign.Flow.Reach
import MailCampaign.Flow.Store
import MailCampaign.Flow.Validity
import MailCampaign.Flow.Violation
import MailCampaign.Http.Encoding
import MailCampaign.Http.Endpoint
import MailCampaign.Http.Exchange
import MailCampaign.Http.MediaType
import MailCampaign.Http.Message
import MailCampaign.Http.Server
import MailCampaign.Http.Target
import MailCampaign.Instant.Basic
import MailCampaign.Instant.Calendar
import MailCampaign.Instant.Text
import MailCampaign.Journal.Entry
import MailCampaign.Journal.File
import MailCampaign.Json.Basic
import MailCampaign.Json.Number
import MailCampaign.Json.Parse
import MailCampaign.Json.Print
import MailCampaign.Json.Read
import MailCampaign.Json.Source
import MailCampaign.Json.Token
import MailCampaign.Lead
import MailCampaign.Mail.Delivery
import MailCampaign.Mail.Mailer
import MailCampaign.Mail.Template
import MailCampaign.Main
import MailCampaign.Number.Double
import MailCampaign.Proofs.Cursor.Calls
import MailCampaign.Proofs.Cursor.Index
import MailCampaign.Proofs.Cursor.Route
import MailCampaign.Proofs.Cursor.Tally
import MailCampaign.Proofs.Cursor.Timers
import MailCampaign.Proofs.Cursor.Turn
import MailCampaign.Proofs.Cursor.Verdict
import MailCampaign.Proofs.Cursor.WellFormed
import MailCampaign.Proofs.Engine.Beside
import MailCampaign.Proofs.Engine.Deed
import MailCampaign.Proofs.Engine.Feed
import MailCampaign.Proofs.Engine.Follow
import MailCampaign.Proofs.Engine.Halves
import MailCampaign.Proofs.Engine.Handover
import MailCampaign.Proofs.Engine.InTime
import MailCampaign.Proofs.Engine.Ingest
import MailCampaign.Proofs.Engine.Keep
import MailCampaign.Proofs.Engine.Local
import MailCampaign.Proofs.Engine.Maintain
import MailCampaign.Proofs.Engine.Outcome
import MailCampaign.Proofs.Engine.Posted
import MailCampaign.Proofs.Engine.Registry
import MailCampaign.Proofs.Engine.Rounds
import MailCampaign.Proofs.Engine.Routed
import MailCampaign.Proofs.Engine.Step
import MailCampaign.Proofs.Engine.Trail
import MailCampaign.Proofs.Engine.Tried
import MailCampaign.Proofs.Engine.Window
import MailCampaign.Proofs.Flow.Arena
import MailCampaign.Proofs.Flow.Components
import MailCampaign.Proofs.Flow.Legal
import MailCampaign.Proofs.Flow.Loops
import MailCampaign.Proofs.Flow.Rules
import MailCampaign.Proofs.Flow.Timeouts
import MailCampaign.Proofs.Flow.Versions
import MailCampaign.Proofs.Http.Tracking
import MailCampaign.Proofs.Journal.Generations
import MailCampaign.Proofs.Journal.Reopened
import MailCampaign.Proofs.Mail.Template
import MailCampaign.Proofs.Run.Basic
import MailCampaign.Proofs.Run.Batch
import MailCampaign.Proofs.Run.Books
import MailCampaign.Proofs.Run.Budget
import MailCampaign.Proofs.Run.Completed
import MailCampaign.Proofs.Run.Crash
import MailCampaign.Proofs.Run.CutOff
import MailCampaign.Proofs.Run.Deliveries
import MailCampaign.Proofs.Run.Drain
import MailCampaign.Proofs.Run.Halt
import MailCampaign.Proofs.Run.InTime
import MailCampaign.Proofs.Run.Log
import MailCampaign.Proofs.Run.Loops
import MailCampaign.Proofs.Run.Parked
import MailCampaign.Proofs.Run.Prodded
import MailCampaign.Proofs.Run.Race
import MailCampaign.Proofs.Run.Record
import MailCampaign.Proofs.Run.Redelivery
import MailCampaign.Proofs.Run.Refused
import MailCampaign.Proofs.Run.Reports
import MailCampaign.Proofs.Run.Restart
import MailCampaign.Proofs.Run.Retention
import MailCampaign.Proofs.Run.Succession
import MailCampaign.Proofs.Run.Targets
import MailCampaign.Proofs.Run.Traffic
import MailCampaign.Proofs.Run.Undisturbed
import MailCampaign.Proofs.Run.Unfinished
import MailCampaign.Proofs.Run.Waits
import MailCampaign.Proofs.Run.Walk
import MailCampaign.Proofs.Run.WellFormed
import MailCampaign.Proofs.Settings.Durations
import MailCampaign.Proofs.Signal.Key
import MailCampaign.Proofs.Wire.RoundTrip
import MailCampaign.Proofs.World.Act
import MailCampaign.Proofs.World.Balance
import MailCampaign.Proofs.World.Beside
import MailCampaign.Proofs.World.Course
import MailCampaign.Proofs.World.Deed
import MailCampaign.Proofs.World.Engaged
import MailCampaign.Proofs.World.Follow
import MailCampaign.Proofs.World.Furnished
import MailCampaign.Proofs.World.InTime
import MailCampaign.Proofs.World.Keep
import MailCampaign.Proofs.World.Ledger
import MailCampaign.Proofs.World.Local
import MailCampaign.Proofs.World.MailCounted
import MailCampaign.Proofs.World.Moves
import MailCampaign.Proofs.World.Pending
import MailCampaign.Proofs.World.Posted
import MailCampaign.Proofs.World.Rebuild
import MailCampaign.Proofs.World.Registry
import MailCampaign.Proofs.World.Replay
import MailCampaign.Proofs.World.Stay
import MailCampaign.Proofs.World.Touched
import MailCampaign.Proofs.World.Unmailed
import MailCampaign.Proofs.World.Visits
import MailCampaign.Retry
import MailCampaign.SeenKeys
import MailCampaign.Settings.Basic
import MailCampaign.Settings.Environment
import MailCampaign.Settings.Json
import MailCampaign.Signal
import MailCampaign.Statistics
import MailCampaign.Storage.Disk
import MailCampaign.Storage.Path
import MailCampaign.Table
import MailCampaign.Text.Ascii
import MailCampaign.Text.Blank
import MailCampaign.Text.Numeral
import MailCampaign.Text.Utf8
import MailCampaign.Uuid
import MailCampaign.Wire.Activity
import MailCampaign.Wire.Basic
import MailCampaign.Wire.Cursor
import MailCampaign.Wire.Flow
import MailCampaign.Wire.Journal
import MailCampaign.World.Basic
import MailCampaign.World.Control
import MailCampaign.World.Move
import MailCampaign.World.Order
import MailCampaign.World.Snapshot
