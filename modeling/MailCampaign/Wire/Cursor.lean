import MailCampaign.Cursor.Verdict
import MailCampaign.Signal
import MailCampaign.Wire.Flow

/-!
# JSON forms of cursors and signals
-/

namespace MailCampaign

open Json (Decoder)

def CursorState.json (s : CursorState) : Json := .str s.name

def CursorState.decoder : Decoder CursorState :=
  .oneOf (CursorState.all.map fun s => (s.name, s))

def CursorKey.json (k : CursorKey) : Json :=
  .obj [("flow_id", k.flowId.json), ("lead_id", .str k.leadId)]

def Counters.json (c : Counters) : Json :=
  .obj [("emails_sent", .nat c.emailsSent.toNat), ("opens", .nat c.opens.toNat),
    ("clicks", .nat c.clicks.toNat), ("replies", .nat c.replies.toNat)]

def Counters.decoder : Decoder Counters :=
  .record ["emails_sent", "opens", "clicks", "replies"] fun s =>
    Counters.mk <$> s.required "emails_sent" .uint32 <*> s.required "opens" .uint32
      <*> s.required "clicks" .uint32 <*> s.required "replies" .uint32

def Observation.json (o : Observation) : Json :=
  .obj [("signal", o.signal.json), ("at", o.time.json)]

def Observation.decoder : Decoder Observation :=
  .record ["signal", "at"] fun s =>
    Observation.mk <$> s.required "signal" EngagementKind.decoder
      <*> s.required "at" Instant.decoder

def Window.json (w : Window) : Json :=
  .obj [("node_id", .str w.nodeId), ("window_start", w.opens.json), ("deadline", w.deadline.json),
    ("observed", .list Observation.json w.observed)]

def Window.decoder : Decoder Window :=
  .record ["node_id", "window_start", "deadline", "observed"] fun s =>
    Window.mk <$> s.required "node_id" .string <*> s.required "window_start" Instant.decoder
      <*> s.required "deadline" Instant.decoder
      <*> s.withDefault "observed" (.list Observation.decoder) []

def Step.json (s : Step) : Json :=
  .obj [("node_id", .str s.nodeId), ("node_type", .str s.kind), ("outcome", .str s.outcome),
    ("at", s.time.json)]

def Step.decoder : Decoder Step :=
  .record ["node_id", "node_type", "outcome", "at"] fun s =>
    Step.mk <$> s.required "node_id" .string <*> s.required "node_type" .string
      <*> s.required "outcome" .string <*> s.required "at" Instant.decoder

def Cursor.json (c : Cursor) : Json :=
  .obj [("id", c.id.json), ("flow_id", c.flowId.json), ("campaign_id", c.campaignId.json),
    ("lead_id", .str c.leadId), ("current_node_id", .str c.nodeId), ("state", c.state.json),
    ("next_run_at", .ofOption Instant.json c.nextRun), ("counters", c.counters.json),
    ("retry_count", .nat c.retries.toNat), ("condition", .ofOption Window.json c.window),
    ("enrolled_at", c.enrolledAt.json), ("updated_at", c.updatedAt.json),
    ("goal_reached_at", .ofOption Instant.json c.goalReachedAt),
    ("failure_reason", .ofOption .str c.failure), ("history", .list Step.json c.history)]

def Cursor.decoder : Decoder Cursor :=
  .record ["id", "flow_id", "campaign_id", "lead_id", "current_node_id", "state", "next_run_at",
      "counters", "retry_count", "condition", "enrolled_at", "updated_at", "goal_reached_at",
      "failure_reason", "history"] fun s =>
    Cursor.mk <$> s.required "id" Uuid.decoder <*> s.required "flow_id" Uuid.decoder
      <*> s.required "campaign_id" Uuid.decoder <*> s.required "lead_id" .string
      <*> s.required "current_node_id" .string <*> s.required "state" CursorState.decoder
      <*> s.nullable "next_run_at" Instant.decoder
      <*> s.withDefault "counters" Counters.decoder {}
      <*> s.withDefault "retry_count" .uint32 0 <*> s.maybe "condition" Window.decoder
      <*> s.required "enrolled_at" Instant.decoder <*> s.required "updated_at" Instant.decoder
      <*> s.maybe "goal_reached_at" Instant.decoder <*> s.maybe "failure_reason" .string
      <*> s.withDefault "history" (.list Step.decoder) []

def Verdict.json (v : Verdict) : Json := .str v.name

def Verdict.decoder : Decoder Verdict := .oneOf [("yes", .yes), ("no", .no), ("pending", .pending)]

/-! ## Signals -/

def SignalKind.fields : SignalKind → List (String × Json)
  | .pixelHit => [("signal", .str "pixel_hit")]
  | .clickRedirect url => [("signal", .str "click_redirect"), ("url", .str url)]
  | .replyDetected => [("signal", .str "reply_detected")]
  | .bounce kind => [("signal", .str "bounce"), ("kind", .str kind.name)]
  | .unsubscribe => [("signal", .str "unsubscribe")]

def SignalKind.decoders : List (String × Decoder SignalKind) :=
  [("pixel_hit", fun _ _ => .value .pixelHit),
    ("click_redirect", .record ["url"] fun s => .clickRedirect <$> s.required "url" .string),
    ("reply_detected", fun _ _ => .value .replyDetected),
    ("bounce", .record ["kind"] fun s =>
      .bounce <$> s.withDefault "kind" BounceKind.decoder .hard),
    ("unsubscribe", fun _ _ => .value .unsubscribe)]

/-- Reads a kind of signal from the fields of the signal. -/
def SignalKind.ofFields (fields : List (Option String × Source)) : Reading SignalKind := do
  let (tag, rest) ← Decoder.tagged "signal" fields
  let d ← Decoder.nameOrIndex SignalKind.decoders .buffer tag
  d .buffer (.obj rest)

def Signal.json (s : Signal) : Json :=
  .obj (s.kind.fields ++ [("campaign_id", s.campaignId.json), ("lead_id", .str s.leadId),
    ("message_id", .ofOption .str s.messageId), ("idempotency_key", .ofOption .str s.providerKey),
    ("at", .ofOption Instant.json s.time), ("ip", .ofOption .str s.ip),
    ("user_agent", .ofOption .str s.userAgent)])

def Signal.decoder : Decoder Signal :=
  .recordWithRest ["campaign_id", "lead_id", "message_id", "idempotency_key", "at", "ip",
      "user_agent"] fun s others =>
    Signal.mk <$> s.atEnd (SignalKind.ofFields others) <*> s.required "campaign_id" Uuid.decoder
      <*> s.required "lead_id" .string <*> s.maybe "message_id" .string
      <*> s.maybe "idempotency_key" .string <*> s.maybe "at" Instant.decoder
      <*> s.maybe "ip" .string <*> s.maybe "user_agent" .string

end MailCampaign
