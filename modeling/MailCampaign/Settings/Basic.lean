/-!
# Settings

Everything that can be set, with its default.
-/

namespace MailCampaign

/-- Settings of the engine and its scheduler. -/
structure FlowSettings where
  schedulerIntervalMs : UInt64 := 1000
  /-- The most cursors taken in one tick. -/
  batchSize : UInt64 := 500
  dispatchConcurrency : UInt64 := 32
  maxSendRetries : UInt32 := 5
  retryBaseSecs : UInt64 := 60
  retryMaxSecs : UInt64 := 3600
  /-- How long keys of events are remembered. -/
  idempotencyTtlHours : UInt64 := 168
  /-- The file for snapshots; nothing is kept without one. -/
  snapshotPath : Option String := none
  snapshotIntervalSecs : UInt64 := 30
  journalFsync : Bool := true
deriving DecidableEq

/-- Settings of the HTTP server. -/
structure ApiSettings where
  host : String := "0.0.0.0"
  httpPort : UInt16 := 8080
deriving DecidableEq

/-- Settings of the metrics exporter. -/
structure MetricsSettings where
  enabled : Bool := true
  port : UInt16 := 9091
deriving DecidableEq

/-- All settings. -/
structure Settings where
  nodeId : String := "node-01"
  api : ApiSettings := {}
  metrics : MetricsSettings := {}
  flow : FlowSettings := {}
deriving DecidableEq

end MailCampaign
