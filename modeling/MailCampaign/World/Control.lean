import MailCampaign.World.Move

/-!
# Control of campaigns and leads

Activating flows, stopping and resuming campaigns, and stopping leads. None of this sends mail.
-/

namespace MailCampaign

/-- What became of an event. -/
structure IngestReport where
  key : String
  /-- The key was seen before, and nothing was done. -/
  duplicate : Bool := false
  /-- The cursors the event went to. -/
  routed : Nat := 0
  /-- Those of them that left their condition. -/
  resolved : Nat := 0
  /-- The cursors that were canceled. -/
  canceled : Nat := 0
deriving DecidableEq

namespace Change

/-! ## Campaigns -/

/-- Checks that a campaign is known. -/
def requireCampaign (campaign : Uuid) : Change Unit := do
  if !(← get).campaigns.contains campaign then throw (.missing (.campaign campaign))

/-- Makes a document the active version of a campaign's flow. -/
def activate (campaign : Uuid) (document : Document) (now : Instant) : Change Graph := do
  let w ← get
  if w.status campaign = .canceled then throw (.halted (.activation campaign))
  match w.flows.activate (Uuid.ofNat w.nextId) campaign document now with
  | .error v => throw (.invalidFlow v)
  | .ok (flows, g) => do
    set { w with flows, nextId := w.nextId + 1 }
    apply fun w => (w.journal (.flow g.definition)).setStatus campaign (w.status campaign)
    return g

/-- Cancels the running cursors of a campaign and counts them. -/
def cancelRunning (campaign : Uuid) (reason : String) (now : Instant) : Change Nat := do
  cancelAll reason now ((← get).cursors.ofCampaign campaign)

/-- Pauses a campaign and cancels its running cursors. -/
def pause (campaign : Uuid) (now : Instant) : Change Nat := do
  requireCampaign campaign
  if (← get).status campaign = .canceled then throw (.clash (.canceled campaign))
  apply (·.setStatus campaign .paused)
  cancelRunning campaign "campaign paused" now

/-- Cancels a campaign for good, with its running cursors. -/
def cancelCampaign (campaign : Uuid) (now : Instant) : Change Nat := do
  requireCampaign campaign
  apply (·.setStatus campaign .canceled)
  cancelRunning campaign "campaign canceled" now

/-- Opens a paused campaign again. -/
def resume (campaign : Uuid) : Change Unit := do
  requireCampaign campaign
  match (← get).status campaign with
  | .active => return
  | .paused => apply (·.setStatus campaign .active)
  | .canceled => throw (.clash (.canceled campaign))

/-- The state of a campaign. -/
def summary (campaign : Uuid) : Change CampaignSummary := do
  requireCampaign campaign
  let w ← get
  let active := w.flows.active? campaign
  return {
    campaignId := campaign
    status := w.status campaign
    activeFlow := active.map Graph.id
    activeVersion := active.map Graph.version
    totals := w.statistics.of campaign
    cursorStates := w.cursors.stateCounts campaign }

/-! ## Leads -/

/-- Lets an event in, unless its key was seen before. -/
def receive (e : Engagement) (now : Instant) : Change Bool := do
  let w ← get
  match w.seen.receive e.key now with
  | none => return false
  | some seen => do
    set { w with seen }
    return true

/-- Settles the key of an event that went to all its cursors, and writes it down. -/
def settle (key : String) : Change Unit := do
  let w ← get
  let (seen, first) := w.seen.settle key
  set { w with seen }
  match first with
  | some time => apply (·.journal (.seenKey key time))
  | none => return

/-- Lets an event in and counts it, sends it on its way, and settles its key. -/
def ingestWith {m : Type → Type} [Monad m] [MonadLiftT Change m]
    (route : m IngestReport) (e : Engagement) (now : Instant) : m IngestReport := do
  if ← receive e now then do
    apply (·.count e none now)
    let report ← route
    settle e.key
    return report
  else return { key := e.key, duplicate := true }

/-- Cancels the running cursors of a lead in all campaigns. -/
def haltLead (e : Engagement) (now : Instant) : Change IngestReport := do
  let canceled ← cancelAll ("lead " ++ e.kind.name) now ((← get).cursors.running e.leadId)
  return { key := e.key, canceled }

/-- Takes in an event that stops its lead. -/
def ingestHalting (e : Engagement) (now : Instant) : Change IngestReport :=
  ingestWith (haltLead e now) e now

/-! ## Upkeep -/

/-- Forgets the keys of events that were received before the time for which keys are kept, and
counts them. -/
def prune (ttlHours : UInt64) (now : Instant) : Change Nat := do
  let ttl ← need .outOfRange (Span.ofHours? ttlHours.toInt64.toInt)
  let cutoff ← need .outOfRange (now.subtract? ttl)
  let w ← get
  let seen := w.seen.prune cutoff
  let statistics := w.statistics.prune cutoff
  set { w with seen, statistics }
  return (w.seen.size - seen.size) + (w.statistics.applied.size - statistics.applied.size)

end Change

end MailCampaign
