import MailCampaign.Engine.Dispatch
import MailCampaign.Http.Encoding
import MailCampaign.Http.Message
import MailCampaign.Wire.Cursor

/-!
# Endpoints

The addresses of the server with the methods they take, and what they read from a request.
-/

namespace MailCampaign.Http

/-- A webhook of a mail provider. -/
inductive Webhook where
  | reply
  | bounce
  | unsubscribe
deriving DecidableEq

/-- Something that can be asked for; ids stand as in the path. -/
inductive Endpoint where
  | summary (campaign : String)
  | activate (campaign : String)
  | enroll (campaign : String)
  | pause (campaign : String)
  | cancel (campaign : String)
  | resume (campaign : String)
  | leads (campaign lead : String)
  | trackOpen
  | trackClick
  | webhook (w : Webhook)
  | health
  | live
deriving DecidableEq

namespace Endpoint

/-- The endpoint of an action on a campaign. -/
def ofAction? (campaign : String) : String → Option Endpoint
  | "flows" => some (activate campaign)
  | "enroll" => some (enroll campaign)
  | "pause" => some (pause campaign)
  | "cancel" => some (cancel campaign)
  | "resume" => some (resume campaign)
  | _ => none

/-- The endpoint of the parts of a path. The last part of a path is not empty. -/
def ofParts? : List String → Option Endpoint
  | ["v1", "campaigns", campaign] => if campaign = "" then none else some (summary campaign)
  | ["v1", "campaigns", campaign, action] => ofAction? campaign action
  | ["v1", "campaigns", campaign, "leads", lead] =>
    if lead = "" then none else some (leads campaign lead)
  | ["t", "open"] => some trackOpen
  | ["t", "click"] => some trackClick
  | ["v1", "webhooks", "reply"] => some (webhook .reply)
  | ["v1", "webhooks", "bounce"] => some (webhook .bounce)
  | ["v1", "webhooks", "unsubscribe"] => some (webhook .unsubscribe)
  | ["health"] => some health
  | ["live"] => some live
  | _ => none

/-- The endpoint of a path. -/
def ofPath? (path : List Char) : Option Endpoint :=
  match splitOn '/' path with
  | [] :: parts => ofParts? (parts.map String.ofList)
  | _ => none

/-- Whether an endpoint only answers a question. -/
def reads : Endpoint → Bool
  | summary _ | leads _ _ | trackOpen | trackClick | health | live => true
  | _ => false

/-- Whether an endpoint takes a method. -/
def accepts (e : Endpoint) (method : String) : Bool :=
  if e.reads then method == "GET" || method == "HEAD" else method == "POST"

end Endpoint

/-! ## Reading requests -/

/-- What is read from a request, or the status of its refusal. -/
abbrev Extract (α : Type) := Except Nat α

/-- A part of the path. -/
def pathPart (s : String) : Extract String :=
  match pathText? s with
  | some t => .ok t
  | none => .error 400

/-- The campaign in the path. -/
def pathCampaign (s : String) : Extract Uuid := do
  match Uuid.ofText? (← pathPart s) with
  | some u => return u
  | none => throw 400

/-- The body of a request as a value. Text after the value is not looked at. -/
def body {α : Type} (d : Json.Decoder α) (r : Request) : Extract α :=
  if r.saysJson then
    match Json.readStart d r.body with
    | .value a => .ok a
    | .fault .malformed => .error 400
    | .fault .mistyped => .error 422
  else .error 415

/-- The value of a field of a form, which may be there once. -/
def formField? (fields : List (String × String)) (name : String) : Extract (Option String) :=
  match fields.filter fun f => f.1 == name with
  | [] => .ok none
  | [(_, value)] => .ok (some value)
  | _ => .error 400

/-- The query of a tracking link. -/
structure TrackQuery where
  campaign : Uuid
  lead : String
  messageId : Option String
  url : Option String

/-- Reads the query of a tracking link. -/
def TrackQuery.read (query : List Char) : Extract TrackQuery := do
  let fields := formFields (String.ofList query)
  let campaign ← formField? fields "c"
  let lead ← formField? fields "l"
  let messageId ← formField? fields "m"
  let url ← formField? fields "url"
  match campaign.bind Uuid.ofText?, lead with
  | some campaign, some lead => return ⟨campaign, lead, messageId, url⟩
  | _, _ => throw 400

/-- The signal of a tracking link that was followed. -/
def TrackQuery.signal (q : TrackQuery) (kind : SignalKind) (r : Request) : Signal where
  kind := kind
  campaignId := q.campaign
  leadId := q.lead
  messageId := q.messageId
  ip := (r.visibleHeader? "x-forwarded-for").map fun v =>
    trim (String.ofList (cutAt ',' v.toList).1)
  userAgent := r.visibleHeader? "user-agent"

/-- What a provider tells a webhook. -/
structure WebhookCall where
  campaign : Uuid
  lead : String
  messageId : Option String
  key : Option String
  time : Option Instant
  bounceKind : Option BounceKind

def WebhookCall.decoder : Json.Decoder WebhookCall :=
  .record ["campaign_id", "lead_id", "message_id", "idempotency_key", "occurred_at", "bounce_kind"]
    fun s =>
      WebhookCall.mk <$> s.required "campaign_id" Uuid.decoder <*> s.required "lead_id" .string
        <*> s.maybe "message_id" .string <*> s.maybe "idempotency_key" .string
        <*> s.maybe "occurred_at" Instant.decoder <*> s.maybe "bounce_kind" BounceKind.decoder

/-- The kind of signal that a webhook reports. A bounce is final unless it is said to be soft. -/
def Webhook.kind (c : WebhookCall) : Webhook → SignalKind
  | .reply => .replyDetected
  | .bounce => .bounce (c.bounceKind.getD .hard)
  | .unsubscribe => .unsubscribe

/-- The signal of a call of a webhook. -/
def WebhookCall.signal (c : WebhookCall) (w : Webhook) : Signal where
  kind := w.kind c
  campaignId := c.campaign
  leadId := c.lead
  messageId := c.messageId
  providerKey := c.key
  time := c.time

end MailCampaign.Http
