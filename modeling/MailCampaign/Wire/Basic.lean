import MailCampaign.Campaign
import MailCampaign.Engagement
import MailCampaign.Instant.Text
import MailCampaign.Json.Read
import MailCampaign.Lead

/-!
# JSON forms of identifiers, instants, leads, events and totals

Each type has the value it is written as and a decoder that reads it back.
-/

namespace MailCampaign

open Json (Decoder)

def Uuid.json (u : Uuid) : Json := .str u.text

def Uuid.decoder : Decoder Uuid := .parsed Uuid.ofText?

def Instant.json (t : Instant) : Json := .str t.text

def Instant.decoder : Decoder Instant := .parsed Instant.ofText?

/-- The JSON form of a key with an instant. -/
def datedKeyJson (e : String × Instant) : Json := .arr [.str e.1, e.2.json]

/-- Reads a key with an instant. -/
def datedKeyDecoder : Decoder (String × Instant) := .pair .string Instant.decoder

/-! ## Leads -/

/-- The JSON form of a table of strings. -/
def fieldsJson (t : Table String String) : Json :=
  .obj (t.toList.map fun e => (e.1, .str e.2))

def Lead.json (l : Lead) : Json :=
  .obj [("id", .str l.id), ("email", .str l.email), ("fields", fieldsJson l.fields)]

def Lead.decoder : Decoder Lead :=
  .record ["id", "email", "fields"] fun s =>
    Lead.mk <$> s.required "id" .string <*> s.required "email" .string
      <*> s.withDefault "fields" (.table .string) Table.empty

/-! ## Events -/

/-- The kinds of engagement by name. -/
def EngagementKind.names : List (String × EngagementKind) :=
  [.sent, .opened, .clicked, .replied, .bounced, .unsubscribed].map fun k =>
    (EngagementKind.name k, k)

def EngagementKind.json (k : EngagementKind) : Json := .str k.name

def EngagementKind.decoder : Decoder EngagementKind := .oneOf EngagementKind.names

def BounceKind.name : BounceKind → String
  | .hard => "hard"
  | .soft => "soft"

def BounceKind.decoder : Decoder BounceKind := .oneOf [("hard", .hard), ("soft", .soft)]

/-- A field that is left out when it is absent. -/
def presentField {α : Type} (name : String) (f : α → Json) : Option α → List (String × Json)
  | some a => [(name, f a)]
  | none => []

/-- The JSON form of what is told about an event. -/
def EventContext.json (c : EventContext) : Json :=
  .obj (presentField "ip" .str c.ip ++ presentField "user_agent" .str c.userAgent ++
    presentField "url" .str c.url ++ presentField "bounce_kind" (fun k => .str k.name) c.bounceKind)

def EventContext.decoder : Decoder EventContext :=
  .record ["ip", "user_agent", "url", "bounce_kind"] fun s =>
    EventContext.mk <$> s.maybe "ip" .string <*> s.maybe "user_agent" .string
      <*> s.maybe "url" .string <*> s.maybe "bounce_kind" BounceKind.decoder

def Engagement.json (e : Engagement) : Json :=
  .obj [("lead_id", .str e.leadId), ("campaign_id", e.campaignId.json),
    ("event_type", e.kind.json), ("timestamp", e.time.json), ("idempotency_key", .str e.key),
    ("payload", e.context.json)]

def Engagement.decoder : Decoder Engagement :=
  .record ["lead_id", "campaign_id", "event_type", "timestamp", "idempotency_key", "payload"]
    fun s =>
      Engagement.mk <$> s.required "lead_id" .string <*> s.required "campaign_id" Uuid.decoder
        <*> s.required "event_type" EngagementKind.decoder
        <*> s.required "timestamp" Instant.decoder <*> s.required "idempotency_key" .string
        <*> s.withDefault "payload" EventContext.decoder {}

/-! ## Campaigns -/

def CampaignStatus.json (s : CampaignStatus) : Json := .str s.name

def CampaignStatus.decoder : Decoder CampaignStatus :=
  .oneOf [("active", .active), ("paused", .paused), ("canceled", .canceled)]

/-- The JSON form of a 64-bit number. -/
def countJson (n : UInt64) : Json := .nat n.toNat

def Totals.json (t : Totals) : Json :=
  .obj [("sent", countJson t.sent), ("opens", countJson t.opens),
    ("unique_opens", countJson t.uniqueOpens), ("clicks", countJson t.clicks),
    ("unique_clicks", countJson t.uniqueClicks), ("replies", countJson t.replies),
    ("bounces", countJson t.bounces), ("unsubscribes", countJson t.unsubscribes),
    ("enrolled", countJson t.enrolled), ("goal_reached", countJson t.goalReached),
    ("completed", countJson t.completed), ("failed", countJson t.failed),
    ("canceled", countJson t.canceled)]

def Totals.decoder : Decoder Totals :=
  .record ["sent", "opens", "unique_opens", "clicks", "unique_clicks", "replies", "bounces",
      "unsubscribes", "enrolled", "goal_reached", "completed", "failed", "canceled"] fun s =>
    Totals.mk <$> s.required "sent" .uint64 <*> s.required "opens" .uint64
      <*> s.required "unique_opens" .uint64 <*> s.required "clicks" .uint64
      <*> s.required "unique_clicks" .uint64 <*> s.required "replies" .uint64
      <*> s.required "bounces" .uint64 <*> s.required "unsubscribes" .uint64
      <*> s.required "enrolled" .uint64 <*> s.required "goal_reached" .uint64
      <*> s.required "completed" .uint64 <*> s.required "failed" .uint64
      <*> s.required "canceled" .uint64

/-- The JSON form of the state of a campaign. -/
def CampaignSummary.json (s : CampaignSummary) : Json :=
  .obj [("campaign_id", s.campaignId.json), ("status", s.status.json),
    ("active_flow_id", .ofOption Uuid.json s.activeFlow),
    ("active_version", .ofOption (fun v => .nat v.toNat) s.activeVersion),
    ("stats", s.totals.json),
    ("cursor_states", .obj (s.cursorStates.toList.map fun e => (e.1, countJson e.2)))]

def CampaignSummary.decoder : Decoder CampaignSummary :=
  .record ["campaign_id", "status", "active_flow_id", "active_version", "stats", "cursor_states"]
    fun s =>
      CampaignSummary.mk <$> s.required "campaign_id" Uuid.decoder
        <*> s.required "status" CampaignStatus.decoder
        <*> s.nullable "active_flow_id" Uuid.decoder <*> s.nullable "active_version" .uint32
        <*> s.required "stats" Totals.decoder <*> s.required "cursor_states" (.table .uint64)

end MailCampaign
