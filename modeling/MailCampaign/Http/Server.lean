import MailCampaign.Http.Endpoint
import MailCampaign.Wire.Journal

/-!
# The server

Answers requests: the control of campaigns, the tracking links in mails, the webhooks of providers
and the questions of those who run the server.
-/

namespace MailCampaign.Http

/-- What a server knows of itself. -/
structure Server where
  nodeId : String
  uptime : Nat

/-- The most steps that a flow may have. -/
def mostNodes : Nat := 500

/-- The most bytes of the id and of the address of a lead. -/
def mostBytes : Nat := 256

/-- The JSON form of a report. -/
def reportJson (r : IngestReport) : Json :=
  .obj [("idempotency_key", .str r.key), ("duplicate", .bool r.duplicate), ("routed", .nat r.routed),
    ("resolved", .nat r.resolved), ("canceled", .nat r.canceled)]

/-- The JSON form of an activation. -/
def activationJson (campaign : Uuid) (g : Graph) : Json :=
  .obj [("campaign_id", campaign.json), ("flow_id", g.id.json), ("version", .nat g.version.toNat),
    ("activated_at", g.definition.activatedAt.json)]

/-- The response for a campaign that was stopped or opened again. -/
def controlResponse (w : World) (campaign : Uuid) (canceled : Nat) : Response :=
  ⟨200, .json (.obj [("campaign_id", campaign.json), ("status", (w.status campaign).json),
    ("canceled_cursors", .nat canceled)])⟩

/-- What is wrong with a lead that is to be enrolled. -/
def leadComplaint (l : Lead) : Option String :=
  if blankText l.id || mostBytes < l.id.utf8ByteSize then
    some "lead 'id' must be 1-256 characters"
  else if mostBytes < l.email.utf8ByteSize || !l.email.toList.contains '@' then
    some "lead 'email' is not a valid address"
  else none

/-- The target of a tracking link, when it is an address of the web. -/
def clickTarget (q : TrackQuery) : Option String :=
  q.url.filter fun url => url.startsWith "https://" || url.startsWith "http://"

/-- The response that sends on to an address, without the address when no header can hold it. -/
def redirect (url : String) : Response :=
  ⟨302, if legalValue url then .location url else .nothing⟩

variable {σ : Type}

/-- Answers with the response for a fault, unless a time was out of range. -/
def answering (op : Engine σ Response) : Engine σ Response :=
  tryCatch op fun
    | .outOfRange => throw .outOfRange
    | e => return faultResponse e

/-- Goes on with what was read, or answers with the status of the refusal. -/
def extracting {α : Type} (e : Extract α) (f : α → Engine σ Response) : Engine σ Response :=
  match e with
  | .ok a => f a
  | .error status => return ⟨status, .nothing⟩

/-! ## Control -/

/-- Activates a flow. -/
def activate (campaign : Uuid) (d : Document) (now : Instant) : Engine σ Response := do
  if mostNodes < d.nodes.length then return badRequest "flow exceeds maximum number of nodes"
  else
    let g ← Change.activate campaign d now
    return ⟨201, .json (activationJson campaign g)⟩

/-- Enrolls a lead. -/
def enroll (svc : Services σ) (campaign : Uuid) (l : Lead) (now : Instant) : Engine σ Response := do
  match leadComplaint l with
  | some complaint => return badRequest complaint
  | none =>
    let c ← Engine.enroll svc campaign l now
    return ⟨201, .json c.json⟩

/-- Stops a campaign or opens it again. -/
def control (campaign : Uuid) (change : Change Nat) : Engine σ Response := do
  let canceled ← change
  return controlResponse (← Engine.world) campaign canceled

/-- The cursors of a lead in a campaign. -/
def cursorsOf (w : World) (campaign : Uuid) (lead : String) : List Cursor :=
  (w.cursors.ofLead lead).filterMap fun key =>
    (w.cursors.find? key).filter fun c => c.campaignId == campaign

/-- Answers with the cursors of a lead in a campaign. -/
def leadCursors (campaign : Uuid) (lead : String) : Engine σ Response := do
  let cursors := cursorsOf (← Engine.world) campaign lead
  if cursors.isEmpty then throw (.missing (.enrollment lead campaign))
  else return ⟨200, .json (.list Cursor.json cursors)⟩

/-! ## Tracking -/

/-- Takes in a signal; a fault in it goes unnoticed, unless a time was out of range. -/
def ingestQuietly (svc : Services σ) (s : Signal) (now : Instant) : Engine σ Unit :=
  tryCatch (discard (Engine.ingestSignal svc s now)) fun
    | .outOfRange => throw .outOfRange
    | _ => pure ()

/-- Notes that a mail was opened and answers with the pixel. -/
def trackOpen (svc : Services σ) (q : TrackQuery) (r : Request) (now : Instant) :
    Engine σ Response := do
  ingestQuietly svc (q.signal .pixelHit r) now
  return ⟨200, .pixel⟩

/-- Notes that a link was followed and sends on to its target. -/
def trackClick (svc : Services σ) (q : TrackQuery) (r : Request) (now : Instant) :
    Engine σ Response := do
  match clickTarget q with
  | none => return badRequest "click target must be an http(s) URL"
  | some url =>
    ingestQuietly svc (q.signal (.clickRedirect url) r) now
    return redirect url

/-- Takes in what a provider tells. -/
def webhook (svc : Services σ) (s : Signal) (now : Instant) : Engine σ Response := do
  if blankText s.leadId then return badRequest "'lead_id' must not be empty"
  else
    let report ← Engine.ingestSignal svc s now
    return ⟨202, .json (reportJson report)⟩

/-! ## Requests -/

/-- Answers for an endpoint. -/
def serve (server : Server) (svc : Services σ) (r : Request) (query : List Char) (now : Instant) :
    Endpoint → Engine σ Response
  | .summary c => extracting (pathCampaign c) fun c => do
    let s ← Change.summary c
    return ⟨200, .json s.json⟩
  | .activate c => extracting (pathCampaign c) fun c =>
    extracting (body Document.decoder r) fun d => activate c d now
  | .enroll c => extracting (pathCampaign c) fun c =>
    extracting (body Lead.decoder r) fun l => enroll svc c l now
  | .pause c => extracting (pathCampaign c) fun c => control c (Change.pause c now)
  | .cancel c => extracting (pathCampaign c) fun c => control c (Change.cancelCampaign c now)
  | .resume c => extracting (pathCampaign c) fun c =>
    control c (do Change.resume c; return 0)
  | .leads c l => extracting (do return (← pathPart l, ← pathCampaign c)) fun (l, c) =>
    leadCursors c l
  | .trackOpen => extracting (TrackQuery.read query) fun q => trackOpen svc q r now
  | .trackClick => extracting (TrackQuery.read query) fun q => trackClick svc q r now
  | .webhook w => extracting (body WebhookCall.decoder r) fun call => webhook svc (call.signal w) now
  | .health => do
    return ⟨200, .json (.obj [("status", .str "healthy"), ("node_id", .str server.nodeId),
      ("uptime_secs", .nat server.uptime), ("cursors", .nat (← Engine.world).cursors.size)])⟩
  | .live => return ⟨200, .nothing⟩

/-- The response to a request that asks for the head alone. -/
def headOnly (r : Response) : Response :=
  match r.content with
  | .location _ => r
  | _ => { r with content := .nothing }

/-- Answers a request. -/
def handle (server : Server) (svc : Services σ) (r : Request) (now : Instant) :
    Engine σ Response := do
  let (path, query) := pathAndQuery r.target.toList
  if r.method == "OPTIONS" then return ⟨200, .nothing⟩
  else
    match Endpoint.ofPath? path with
    | none => return ⟨404, .nothing⟩
    | some e =>
      if e.accepts r.method then do
        let response ← answering (serve server svc r query now e)
        return if r.method == "HEAD" then headOnly response else response
      else return ⟨405, .nothing⟩

end MailCampaign.Http
