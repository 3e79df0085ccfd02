import MailCampaign.Activity
import MailCampaign.Cursor.Store
import MailCampaign.Flow.Store
import MailCampaign.Journal.Entry
import MailCampaign.Mail.Delivery
import MailCampaign.SeenKeys
import MailCampaign.Statistics

/-!
# The world of campaigns

All that is known of campaigns, with a trace of what went out: the entries for the journal, the
activities and the mails. A change of the world either gives a result or ends in a fault; what was
changed before a fault stays changed.
-/

namespace MailCampaign

/-- Something that left the world. -/
inductive Effect where
  | entry (e : Entry)
  | activity (a : Activity)
  | submission (s : Submission)

/-- Flows, cursors, leads, campaigns and what was counted. -/
structure World where
  flows : FlowStore
  cursors : CursorStore
  leads : Table String Lead
  campaigns : Table Uuid CampaignStatus
  statistics : Statistics
  seen : SeenKeys
  /-- The number of the next id to be drawn; ids are drawn in ascending order. -/
  nextId : Nat
  /-- What went out, the latest first. -/
  trace : List Effect

namespace World

/-- The world in which nothing has happened, with the number of the first id to be drawn. -/
def empty (nextId : Nat) : World where
  flows := FlowStore.empty
  cursors := CursorStore.empty
  leads := Table.empty
  campaigns := Table.empty
  statistics := Statistics.empty
  seen := SeenKeys.empty
  nextId := nextId
  trace := []

/-- Lets something out. -/
def emit (w : World) (e : Effect) : World := { w with trace := e :: w.trace }

/-- Writes an entry down. -/
def journal (w : World) (e : Entry) : World := w.emit (.entry e)

/-- Tells of a milestone of a cursor at a step. -/
def report (w : World) (c : Cursor) (milestone : Milestone) (nodeId : String) (now : Instant) :
    World :=
  w.emit (.activity (c.activity milestone nodeId now))

/-- The status of a campaign; a campaign that nobody stopped is active. -/
def status (w : World) (campaign : Uuid) : CampaignStatus :=
  (w.campaigns.find? campaign).getD .active

/-- Gives a campaign a status and writes it down. -/
def setStatus (w : World) (campaign : Uuid) (status : CampaignStatus) : World :=
  { w with campaigns := w.campaigns.insert campaign status }.journal (.campaign campaign status)

/-- Puts the new form of a stored cursor in its place and writes it down. -/
def storeCursor (w : World) (old new : Cursor) : World :=
  { w with cursors := w.cursors.amend old new }.journal (.cursor new)

/-- To the cursors this is an update of the one that is stored. -/
theorem cursors_storeCursor {w : World} {key : CursorKey} {c : Cursor}
    (h : w.cursors.find? key = some c) (f : Cursor → Cursor) :
    (w.storeCursor c (f c)).cursors = w.cursors.update key f := (CursorStore.update_of_find? h f).symm

@[simp] theorem find?_storeCursor (w : World) (old new : Cursor) (key : CursorKey) :
    (w.storeCursor old new).cursors.find? key =
      if key = new.key then some new else w.cursors.find? key :=
  w.cursors.find?_amend old new key

@[simp] theorem flows_storeCursor (w : World) (old new : Cursor) :
    (w.storeCursor old new).flows = w.flows := rfl

@[simp] theorem cursors_emit (w : World) (e : Effect) : (w.emit e).cursors = w.cursors := rfl

@[simp] theorem flows_emit (w : World) (e : Effect) : (w.emit e).flows = w.flows := rfl

@[simp] theorem cursors_report (w : World) (c : Cursor) (m : Milestone) (nodeId : String)
    (now : Instant) : (w.report c m nodeId now).cursors = w.cursors := rfl

@[simp] theorem flows_report (w : World) (c : Cursor) (m : Milestone) (nodeId : String)
    (now : Instant) : (w.report c m nodeId now).flows = w.flows := rfl

/-! ## Counting -/

/-- Writes down the totals of a campaign with what was counted. -/
def journalTotals (w : World) (campaign : Uuid) (applied : Option (String × Instant))
    (unique : Option (String × EngagementKind)) : World :=
  w.journal (.stats campaign (w.statistics.of campaign) applied unique)

/-- The cursor after an event of its campaign; a cursor that ended does not change. -/
def counted (e : Engagement) (c : Cursor) : Cursor :=
  if c.campaignId != e.campaignId || c.state.terminal then c
  else { c with counters := c.counters.count e.kind }

/-- Counts an event on a stored cursor. -/
def countOnCursor (e : Engagement) (w : World) (key : CursorKey) : World :=
  match w.cursors.find? key with
  | some c => w.storeCursor c (counted e c)
  | none => w

/-- The keys of the cursors on which an event is counted: the given one, or all of its lead. -/
def countingKeys (w : World) (e : Engagement) : Option CursorKey → List CursorKey
  | some key => [key]
  | none => w.cursors.ofLead e.leadId

/-- Counts an event in the statistics alone, unless its key was counted before. -/
def countTotals (w : World) (e : Engagement) (received : Instant) : Option World :=
  (w.statistics.count e received).map fun s =>
    { w with statistics := s }.journalTotals e.campaignId (some (e.key, received))
      (if w.statistics.isFirst e then some (e.leadId, e.kind) else none)

/-- Counts an event received at an instant in the totals of its campaign and on cursors. An event
whose key was counted before changes nothing. -/
def count (w : World) (e : Engagement) (only : Option CursorKey) (received : Instant) : World :=
  match w.countTotals e received with
  | none => w
  | some w => (w.countingKeys e only).foldl (countOnCursor e) w

/-- Counts an enrollment. -/
def countEnrolled (w : World) (campaign : Uuid) : World :=
  { w with statistics := w.statistics.countEnrolled campaign }.journalTotals campaign none none

/-- Counts a cursor of a campaign that ended in a state. -/
def countOutcome (w : World) (campaign : Uuid) (state : CursorState) : World :=
  let w := { w with statistics := w.statistics.countOutcome campaign state }
  if state.terminal then w.journalTotals campaign none none else w

end World

/-! ## Changes -/

/-- A change of the world with a result or a fault. -/
abbrev Change := ExceptT Fault (StateM World)

namespace Change

/-- Runs a change on a world. -/
def on {α : Type} (c : Change α) (w : World) : Except Fault α × World := c.run.run w

/-- A change that always succeeds. -/
def apply (f : World → World) : Change Unit := modify f

/-- A value that has to be there. -/
def need {α : Type} (f : Fault) : Option α → Change α
  | some a => pure a
  | none => throw f

/-- The stored cursor of a key. -/
def cursor (key : CursorKey) : Change Cursor := do
  need (.missing (.cursor key)) ((← get).cursors.find? key)

@[simp] theorem on_pure {α : Type} (a : α) (w : World) : (pure a : Change α).on w = (.ok a, w) := rfl

@[simp] theorem on_throw {α : Type} (e : Fault) (w : World) :
    (throw e : Change α).on w = (.error e, w) := rfl

@[simp] theorem on_get (w : World) : (get : Change World).on w = (.ok w, w) := rfl

@[simp] theorem on_set (v w : World) : (set v : Change PUnit).on w = (.ok ⟨⟩, v) := rfl

@[simp] theorem on_apply (f : World → World) (w : World) : (apply f).on w = (.ok ⟨⟩, f w) := rfl

theorem on_bind {α β : Type} (c : Change α) (f : α → Change β) (w : World) :
    (c >>= f).on w = match c.on w with
      | (.ok a, w) => (f a).on w
      | (.error e, w) => (.error e, w) := by
  show (ExceptT.bindCont f =<< c) w = _
  simp only [on, ExceptT.run, StateT.run]
  show (match (c w) with | (a, w) => ExceptT.bindCont f a w) = _
  rcases c w with ⟨a | a, w⟩ <;> rfl

theorem on_bind_ok {α β : Type} {c : Change α} {f : α → Change β} {w v : World} {a : α}
    (h : c.on w = (.ok a, v)) : (c >>= f).on w = (f a).on v := by rw [on_bind, h]

theorem on_bind_error {α β : Type} {c : Change α} {f : α → Change β} {w v : World} {e : Fault}
    (h : c.on w = (.error e, v)) : (c >>= f).on w = (.error e, v) := by rw [on_bind, h]

theorem on_discard {α : Type} (c : Change α) (w : World) :
    (discard c).on w = ((c.on w).1.map fun _ => ⟨⟩, (c.on w).2) := by
  show ((fun _ => PUnit.unit) <$> c).on w = _
  rw [map_eq_pure_bind, on_bind]
  rcases c.on w with ⟨a | a, v⟩ <;> rfl

@[simp] theorem on_need_some {α : Type} (f : Fault) (a : α) (w : World) :
    (need f (some a)).on w = (.ok a, w) := rfl

@[simp] theorem on_need_none {α : Type} (f : Fault) (w : World) :
    (need f (none : Option α)).on w = (.error f, w) := rfl

theorem on_cursor (key : CursorKey) (w : World) :
    (cursor key).on w = (need (.missing (.cursor key)) (w.cursors.find? key)).on w := rfl

theorem on_cursor_some {key : CursorKey} {c : Cursor} {w : World}
    (h : w.cursors.find? key = some c) : (cursor key).on w = (.ok c, w) := by
  rw [on_cursor, h, on_need_some]

theorem on_cursor_none {key : CursorKey} {w : World} (h : w.cursors.find? key = none) :
    (cursor key).on w = (.error (.missing (.cursor key)), w) := by
  rw [on_cursor, h, on_need_none]

/-- Revises a stored cursor and writes it down, also when the revision is refused. -/
def revise (key : CursorKey) (f : Cursor → Except Fault Cursor) : Change Cursor := do
  let c ← cursor key
  match f c with
  | .ok new => do
    apply (·.storeCursor c new)
    pure new
  | .error e => do
    apply (·.storeCursor c c)
    throw e

end Change

end MailCampaign
