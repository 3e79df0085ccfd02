import MailCampaign.Cursor.Basic
import MailCampaign.Fault
import MailCampaign.Table

/-!
# The store of cursors

The cursors by key, with the keys of each lead in the order of their first insertion and the timers
in the order in which they come due: by deadline, then by the id of the cursor.
-/

namespace MailCampaign

/-- A timer of a cursor. -/
structure Timer where
  deadline : Instant
  cursorId : Uuid
  key : CursorKey
deriving DecidableEq

/-- The order of keys. -/
def CursorKey.before (a b : CursorKey) : Bool :=
  a.flowId < b.flowId || (a.flowId == b.flowId && a.leadId < b.leadId)

/-- The order in which timers come due. -/
def Timer.before (a b : Timer) : Bool :=
  a.deadline < b.deadline || (a.deadline == b.deadline &&
    (a.cursorId < b.cursorId || (a.cursorId == b.cursorId && a.key.before b.key)))

namespace Timer

/-- Puts a timer into its place among ordered timers, once. -/
def place (t : Timer) : List Timer → List Timer
  | [] => [t]
  | u :: rest =>
    if t = u then u :: rest
    else if t.before u then t :: u :: rest
    else u :: place t rest

end Timer

/-- The timer of a cursor that has one. -/
def Cursor.timer? (c : Cursor) : Option Timer := c.nextRun.map fun t => ⟨t, c.id, c.key⟩

/-- Cursors with their lead lists and timers. -/
structure CursorStore where
  cursors : Table CursorKey Cursor
  byLead : Table String (List CursorKey)
  timers : List Timer
  keyed : cursors.Keyed Cursor.key

namespace CursorStore

/-- The store without cursors. -/
def empty : CursorStore := ⟨Table.empty, Table.empty, [], Table.keyed_empty _⟩

/-- The cursor of a key. -/
def find? (s : CursorStore) (key : CursorKey) : Option Cursor := s.cursors.find? key

def size (s : CursorStore) : Nat := s.cursors.size

def all (s : CursorStore) : List Cursor := s.cursors.values

/-- The timers without that of a cursor. -/
def withoutTimer (timers : List Timer) (c : Cursor) : List Timer :=
  match c.timer? with
  | some t => timers.erase t
  | none => timers

/-- The timers with that of a cursor. -/
def withTimer (timers : List Timer) (c : Cursor) : List Timer :=
  match c.timer? with
  | some t => t.place timers
  | none => timers

/-- The keys of a lead in the order of their insertion. -/
def ofLead (s : CursorStore) (leadId : String) : List CursorKey := (s.byLead.find? leadId).getD []

/-- Adds a cursor whose key is new. -/
def addNew (s : CursorStore) (c : Cursor) : CursorStore where
  cursors := s.cursors.insert c.key c
  byLead := s.byLead.insert c.leadId (s.ofLead c.leadId ++ [c.key])
  timers := withTimer s.timers c
  keyed := s.keyed.insert c

/-- Puts a cursor in the place of another with its key. -/
def replace (s : CursorStore) (old new : Cursor) : CursorStore where
  cursors := s.cursors.insert new.key new
  byLead := s.byLead
  timers := withTimer (withoutTimer s.timers old) new
  keyed := s.keyed.insert new

/-- Puts the new form of a cursor in its place, under the same key. Its timer is touched only when the
deadline changes, and is then looked for under the id of the new form. -/
def amend (s : CursorStore) (old new : Cursor) : CursorStore where
  cursors := s.cursors.insert new.key new
  byLead := s.byLead
  timers := if old.nextRun = new.nextRun then s.timers
    else withTimer (withoutTimer s.timers { old with id := new.id }) new
  keyed := s.keyed.insert new

/-- Adds a cursor, unless its lead is in the version already. -/
def insert (s : CursorStore) (c : Cursor) : Except Fault CursorStore :=
  match s.find? c.key with
  | some _ => .error (.clash (.enrolled c.key))
  | none => .ok (s.addNew c)

/-- Adds a cursor or replaces the one with its key. -/
def put (s : CursorStore) (c : Cursor) : CursorStore :=
  match s.find? c.key with
  | some old => s.replace old c
  | none => s.addNew c

/-- Changes the cursor of a key, if there is one. The change keeps its flow and its lead. -/
def update (s : CursorStore) (key : CursorKey) (f : Cursor → Cursor) : CursorStore :=
  match s.find? key with
  | some c => s.amend c (f c)
  | none => s

/-- Adds or replaces each cursor of a list in turn. -/
def restore (s : CursorStore) (cs : List Cursor) : CursorStore := cs.foldl put s

@[simp] theorem find?_empty (key : CursorKey) : empty.find? key = none := rfl

theorem key_eq_of_find? {s : CursorStore} {key : CursorKey} {c : Cursor}
    (h : s.find? key = some c) : c.key = key := s.keyed key c h

theorem mem_all {s : CursorStore} {c : Cursor} : c ∈ s.all ↔ s.find? c.key = some c := by
  constructor
  · intro h
    obtain ⟨⟨key, c'⟩, hm, rfl⟩ := List.mem_map.1 h
    have hf : s.find? key = some c' := s.cursors.mem_toList.1 hm
    rw [key_eq_of_find? hf]
    exact hf
  · intro h
    exact List.mem_map.2 ⟨(c.key, c), s.cursors.mem_toList.2 h, rfl⟩

theorem find?_addNew (s : CursorStore) (c : Cursor) (key : CursorKey) :
    (s.addNew c).find? key = if key = c.key then some c else s.find? key :=
  s.cursors.find?_insert c.key key c

theorem find?_replace (s : CursorStore) (old new : Cursor) (key : CursorKey) :
    (s.replace old new).find? key = if key = new.key then some new else s.find? key :=
  s.cursors.find?_insert new.key key new

theorem find?_amend (s : CursorStore) (old new : Cursor) (key : CursorKey) :
    (s.amend old new).find? key = if key = new.key then some new else s.find? key :=
  s.cursors.find?_insert new.key key new

theorem find?_put (s : CursorStore) (c : Cursor) (key : CursorKey) :
    (s.put c).find? key = if key = c.key then some c else s.find? key := by
  unfold put
  split
  · exact s.find?_replace _ c key
  · exact s.find?_addNew c key

theorem update_of_find? {s : CursorStore} {key : CursorKey} {c : Cursor} (h : s.find? key = some c)
    (f : Cursor → Cursor) : s.update key f = s.amend c (f c) := by rw [update, h]

theorem update_of_none {s : CursorStore} {key : CursorKey} (h : s.find? key = none)
    (f : Cursor → Cursor) : s.update key f = s := by rw [update, h]

theorem insert_eq_ok_iff {s t : CursorStore} {c : Cursor} :
    s.insert c = .ok t ↔ s.find? c.key = none ∧ s.addNew c = t := by
  unfold insert
  cases s.find? c.key <;> simp

/-! ## Queries -/

def isDue (now : Instant) (t : Timer) : Bool := t.deadline ≤ now

/-- The due timers in their order. -/
def dueTimers (s : CursorStore) (now : Instant) : List Timer := s.timers.takeWhile (isDue now)

/-- The keys of the first due cursors. -/
def due (s : CursorStore) (now : Instant) (limit : Nat) : List CursorKey :=
  ((s.dueTimers now).take limit).map Timer.key

/-- The number of due timers. -/
def dueCount (s : CursorStore) (now : Instant) : Nat := (s.dueTimers now).length

/-- The keys of the cursors that satisfy a test. -/
def keysWhere (s : CursorStore) (p : Cursor → Bool) : List CursorKey :=
  (s.cursors.toList.filter fun e => p e.2).map Prod.fst

theorem mem_keysWhere {s : CursorStore} {p : Cursor → Bool} {key : CursorKey} :
    key ∈ s.keysWhere p ↔ ∃ c, s.find? key = some c ∧ p c = true := by
  unfold keysWhere
  rw [List.mem_map]
  constructor
  · rintro ⟨⟨key', c⟩, hm, rfl⟩
    obtain ⟨hm, hp⟩ := List.mem_filter.1 hm
    exact ⟨c, s.cursors.mem_toList.1 hm, hp⟩
  · rintro ⟨c, hc, hp⟩
    exact ⟨(key, c), List.mem_filter.2 ⟨s.cursors.mem_toList.2 hc, hp⟩, rfl⟩

/-- The keys of a campaign. -/
def ofCampaign (s : CursorStore) (campaign : Uuid) : List CursorKey :=
  s.keysWhere fun c => c.campaignId == campaign

/-- The keys of cursors in one of the states. -/
def inStates (s : CursorStore) (states : List CursorState) : List CursorKey :=
  s.keysWhere fun c => states.contains c.state

/-- The keys of a lead whose cursors satisfy a test. -/
def ofLeadWhere (s : CursorStore) (leadId : String) (p : Cursor → Bool) : List CursorKey :=
  (s.ofLead leadId).filter fun key => (s.find? key).any p

/-- The keys of a lead whose cursors still run. -/
def running (s : CursorStore) (leadId : String) : List CursorKey :=
  s.ofLeadWhere leadId fun c => !c.state.terminal

/-- The keys of the lead of an event whose cursors wait on a condition of its campaign. -/
def awaiting (s : CursorStore) (e : Engagement) : List CursorKey :=
  s.ofLeadWhere e.leadId fun c => c.campaignId == e.campaignId && c.state == .waitingCondition

/-- The number of cursors of a campaign in a state. -/
def countIn (s : CursorStore) (campaign : Uuid) (state : CursorState) : Nat :=
  s.all.countP fun c => c.campaignId == campaign && c.state == state

/-- The states that occur in a campaign, with the numbers of cursors in them. -/
def stateCounts (s : CursorStore) (campaign : Uuid) : Table String UInt64 :=
  Table.ofList <| CursorState.all.filterMap fun state =>
    match s.countIn campaign state with
    | 0 => none
    | n => some (state.name, UInt64.ofNat n)

end CursorStore

end MailCampaign
