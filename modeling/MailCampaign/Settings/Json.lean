import MailCampaign.Json.Read
import MailCampaign.Settings.Basic

/-!
# JSON form of the settings

Every setting may be left out.
-/

namespace MailCampaign

open Json (Decoder)

def FlowSettings.json (s : FlowSettings) : Json :=
  .obj [("scheduler_interval_ms", .nat s.schedulerIntervalMs.toNat),
    ("batch_size", .nat s.batchSize.toNat),
    ("dispatch_concurrency", .nat s.dispatchConcurrency.toNat),
    ("max_send_retries", .nat s.maxSendRetries.toNat),
    ("retry_base_secs", .nat s.retryBaseSecs.toNat),
    ("retry_max_secs", .nat s.retryMaxSecs.toNat),
    ("idempotency_ttl_hours", .nat s.idempotencyTtlHours.toNat),
    ("snapshot_path", .ofOption .str s.snapshotPath),
    ("snapshot_interval_secs", .nat s.snapshotIntervalSecs.toNat),
    ("journal_fsync", .bool s.journalFsync)]

def Settings.json (s : Settings) : Json :=
  .obj [("node_id", .str s.nodeId),
    ("api", .obj [("host", .str s.api.host), ("http_port", .nat s.api.httpPort.toNat)]),
    ("metrics", .obj [("enabled", .bool s.metrics.enabled), ("port", .nat s.metrics.port.toNat)]),
    ("flow", s.flow.json)]

def ApiSettings.decoder : Decoder ApiSettings :=
  .record ["host", "http_port"] fun s =>
    let d : ApiSettings := {}
    ApiSettings.mk <$> s.withDefault "host" .string d.host
      <*> s.withDefault "http_port" .uint16 d.httpPort

def MetricsSettings.decoder : Decoder MetricsSettings :=
  .record ["enabled", "port"] fun s =>
    let d : MetricsSettings := {}
    MetricsSettings.mk <$> s.withDefault "enabled" .bool d.enabled
      <*> s.withDefault "port" .uint16 d.port

def FlowSettings.decoder : Decoder FlowSettings :=
  .record ["scheduler_interval_ms", "batch_size", "dispatch_concurrency", "max_send_retries",
      "retry_base_secs", "retry_max_secs", "idempotency_ttl_hours", "snapshot_path",
      "snapshot_interval_secs", "journal_fsync"] fun s =>
    let d : FlowSettings := {}
    FlowSettings.mk <$> s.withDefault "scheduler_interval_ms" .uint64 d.schedulerIntervalMs
      <*> s.withDefault "batch_size" .uint64 d.batchSize
      <*> s.withDefault "dispatch_concurrency" .uint64 d.dispatchConcurrency
      <*> s.withDefault "max_send_retries" .uint32 d.maxSendRetries
      <*> s.withDefault "retry_base_secs" .uint64 d.retryBaseSecs
      <*> s.withDefault "retry_max_secs" .uint64 d.retryMaxSecs
      <*> s.withDefault "idempotency_ttl_hours" .uint64 d.idempotencyTtlHours
      <*> s.maybe "snapshot_path" .string
      <*> s.withDefault "snapshot_interval_secs" .uint64 d.snapshotIntervalSecs
      <*> s.withDefault "journal_fsync" .bool d.journalFsync

def Settings.decoder : Decoder Settings :=
  .record ["node_id", "api", "metrics", "flow"] fun s =>
    let d : Settings := {}
    Settings.mk <$> s.withDefault "node_id" .string d.nodeId
      <*> s.withDefault "api" ApiSettings.decoder d.api
      <*> s.withDefault "metrics" MetricsSettings.decoder d.metrics
      <*> s.withDefault "flow" FlowSettings.decoder d.flow

end MailCampaign
