import MailCampaign.Engine.Basic
import MailCampaign.Signal

/-!
# Dispatch

A trigger runs the step of a cursor and then every step that follows at once. A flow that keeps the
rules has no loop of such steps, so one run per step and one more are enough.
-/

namespace MailCampaign.Engine

variable {σ : Type}

/-- Runs the step of a cursor once, or cancels the cursor when its campaign is halted. -/
def dispatchOnce (svc : Services σ) (key : CursorKey) (trigger : Trigger) (now : Instant) :
    Engine σ Outcome := do
  let c ← Change.cursor key
  let w ← world
  if c.state.terminal then return .ignored
  else if (w.status c.campaignId).halts then do
    discard <| (Change.cancel key "campaign halted" now : Engine σ Bool)
    return .finished .canceled
  else
    let g ← Change.need (.missing (.flowVersion key.flowId)) (w.flows.find? key.flowId)
    execute svc g key trigger now

/-- Runs at most the given number of steps of a cursor. -/
def dispatchSteps (svc : Services σ) (key : CursorKey) (now : Instant) :
    Nat → Trigger → Engine σ Outcome
  | 0, _ => return .moved
  | n + 1, trigger => do
    match ← dispatchOnce svc key trigger now with
    | .moved => dispatchSteps svc key now n .enter
    | outcome => return outcome

/-- The number of steps that a trigger may run. -/
def stepLimit (w : World) (key : CursorKey) : Nat :=
  match w.flows.find? key.flowId with
  | some g => g.size + 1
  | none => 1

/-- Runs the step of a cursor and those that follow at once. -/
def dispatch (svc : Services σ) (key : CursorKey) (trigger : Trigger) (now : Instant) :
    Engine σ Outcome := do
  dispatchSteps svc key now (stepLimit (← world) key) trigger

/-- Keeps the fault of an operation as its outcome, unless a time was out of range. -/
def kept {α : Type} (e : Engine σ α) : Engine σ (Except Fault α) :=
  tryCatch (Except.ok <$> e) fun
    | .outOfRange => throw .outOfRange
    | e => return .error e

/-- Dispatches each cursor of a list in turn, collecting the outcomes. A fault of one does not keep
the others from their turn, unless a time was out of range. -/
def dispatchEach (svc : Services σ) (trigger : Trigger) (now : Instant) :
    List CursorKey → Engine σ (List (Except Fault Outcome))
  | [] => return []
  | key :: rest => do
    let outcome ← kept (dispatch svc key trigger now)
    let others ← dispatchEach svc trigger now rest
    return outcome :: others

theorem on_kept {α : Type} (e : Engine σ α) (s : Session σ) :
    (kept e).on s = match e.on s with
      | (.error .outOfRange, t) => (.error .outOfRange, t)
      | (r, t) => (.ok r, t) := by
  unfold kept
  rw [on_tryCatch, on_map]
  rcases e.on s with ⟨x | a, t⟩
  · cases x <;> rfl
  · rfl

/-! ## Enrollment -/

/-- The cursor of a lead that enters a version. -/
def newCursor (id : Uuid) (g : Graph) (campaign : Uuid) (leadId : String) (now : Instant) :
    Cursor where
  id := id
  flowId := g.id
  campaignId := campaign
  leadId := leadId
  nodeId := g.entry.id
  state := .pending
  nextRun := none
  counters := {}
  retries := 0
  window := none
  enrolledAt := now
  updatedAt := now
  goalReachedAt := none
  failure := none
  history := []

/-- Adds the cursor and the profile of a lead that enters the active version of a campaign. -/
def addLead (campaign : Uuid) (lead : Lead) (now : Instant) : Change CursorKey := do
  let w ← get
  if (w.status campaign).halts then throw (.halted (.enrollment campaign))
  let g ← Change.need (.missing (.activeFlow campaign)) (w.flows.active? campaign)
  let c := newCursor (Uuid.ofNat w.nextId) g campaign lead.id now
  match w.cursors.insert c with
  | .error e => throw e
  | .ok cursors => do
    set { w with cursors, nextId := w.nextId + 1, leads := w.leads.insert lead.id lead }
    Change.apply fun w => (w.journal (.cursor c)).journal (.lead lead)
    Change.apply fun w => (w.countEnrolled campaign).report c .enrolled g.entry.id now
    return c.key

/-- Enrolls a lead into the active version of a campaign and runs the first steps. -/
def enroll (svc : Services σ) (campaign : Uuid) (lead : Lead) (now : Instant) :
    Engine σ Cursor := do
  let key ← addLead campaign lead now
  discard <| dispatch svc key .enter now
  Change.cursor key

/-! ## Events -/

/-- Whether an event made a cursor leave its condition. -/
def resolves : Outcome → Bool
  | .parked | .ignored => false
  | _ => true

/-- Sends an event to each cursor of a list and counts those that left their condition. -/
def routeTo (svc : Services σ) (e : Engagement) (now : Instant) : List CursorKey → Engine σ Nat
  | [] => return 0
  | key :: rest => do
    let outcome ← dispatch svc key (.event e) now
    let others ← routeTo svc e now rest
    return others + if resolves outcome then 1 else 0

/-- Sends an event to the cursors of its lead that wait on a condition of its campaign. -/
def route (svc : Services σ) (e : Engagement) (now : Instant) : Engine σ IngestReport := do
  let w ← world
  if (w.status e.campaignId).halts then return { key := e.key }
  else
    let keys := w.cursors.awaiting e
    let resolved ← routeTo svc e now keys
    return { key := e.key, routed := keys.length, resolved }

/-- Takes in an event. -/
def ingest (svc : Services σ) (e : Engagement) (now : Instant) : Engine σ IngestReport :=
  if e.haltsLead then Change.ingestHalting e now
  else Change.ingestWith (route svc e now) e now

/-- Takes in a signal. -/
def ingestSignal (svc : Services σ) (s : Signal) (now : Instant) : Engine σ IngestReport :=
  ingest svc (s.toEngagement now) now

/-- Runs the steps of cursors whose steps were interrupted, and counts those cursors. -/
def recover (svc : Services σ) (now : Instant) : Engine σ Nat := do
  let keys := (← world).cursors.inStates [.pending, .active]
  discard <| dispatchEach svc .enter now keys
  return keys.length

/-! ## Timers -/

/-- What became of the due timers of a tick. -/
structure TickReport where
  due : Nat := 0
  fired : Nat := 0
  skipped : Nat := 0
  errors : Nat := 0
deriving DecidableEq

/-- The report of the outcomes of a tick. -/
def tickReport (outcomes : List (Except Fault Outcome)) : TickReport where
  due := outcomes.length
  fired := outcomes.countP fun
    | .ok .ignored => false
    | .ok _ => true
    | .error _ => false
  skipped := outcomes.countP fun
    | .ok .ignored => true
    | _ => false
  errors := outcomes.countP fun
    | .ok _ => false
    | .error _ => true

/-- The number of timers in a batch. -/
def batch (batchSize : UInt64) : Nat := max batchSize.toNat 1

/-- Fires a batch of due timers, one dispatch after another. Dispatches that are under way at once, while
typesetter and mailer are at work for others of them, are traffic of which this is one order. -/
def tick (svc : Services σ) (batchSize : UInt64) (now : Instant) : Engine σ TickReport := do
  let keys := (← world).cursors.due now (batch batchSize)
  tickReport <$> dispatchEach svc .timer now keys

end MailCampaign.Engine
