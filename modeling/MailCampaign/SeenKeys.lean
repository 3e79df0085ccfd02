import MailCampaign.Instant.Basic
import MailCampaign.Table

/-!
# Seen keys

The keys of the events that were let in, each with the time of its first receipt. A key is settled
when its event has gone to all its cursors; only settled keys are saved.
-/

namespace MailCampaign

/-- The first receipt of a key. -/
structure Admission where
  time : Instant
  settled : Bool
deriving DecidableEq

/-- The keys seen so far. -/
structure SeenKeys where
  table : Table String Admission

namespace SeenKeys

/-- No keys. -/
def empty : SeenKeys := ⟨Table.empty⟩

def size (s : SeenKeys) : Nat := s.table.size

/-- Takes in a key, unless it was seen before. -/
def receive (s : SeenKeys) (key : String) (now : Instant) : Option SeenKeys :=
  match s.table.find? key with
  | some _ => none
  | none => some ⟨s.table.insert key ⟨now, false⟩⟩

/-- Marks a key as settled; the second part is the time of its first receipt. -/
def settle (s : SeenKeys) (key : String) : SeenKeys × Option Instant :=
  match s.table.find? key with
  | some a => (⟨s.table.insert key { a with settled := true }⟩, some a.time)
  | none => (s, none)

/-- Forgets the keys first received before an instant. -/
def prune (s : SeenKeys) (cutoff : Instant) : SeenKeys :=
  ⟨s.table.keepIf fun _ a => cutoff ≤ a.time⟩

/-- The settled keys with the times of their first receipt. -/
def settled (s : SeenKeys) : List (String × Instant) :=
  (s.table.toList.filter fun e => e.2.settled).map fun e => (e.1, e.2.time)

/-- Takes in settled keys. -/
def restore (s : SeenKeys) (keys : List (String × Instant)) : SeenKeys :=
  ⟨s.table.insertAll (keys.map fun e => (e.1, ⟨e.2, true⟩))⟩

/-- A key is taken in exactly when it was not seen before. -/
theorem receive_eq_none_iff {s : SeenKeys} {key : String} {now : Instant} :
    s.receive key now = none ↔ ∃ a, s.table.find? key = some a := by
  unfold receive
  cases s.table.find? key <;> simp

theorem fresh_of_receive {s t : SeenKeys} {key : String} {now : Instant}
    (h : s.receive key now = some t) : s.table.find? key = none := by
  unfold receive at h
  cases hf : s.table.find? key with
  | none => rfl
  | some a => simp [hf] at h

theorem receive_of_fresh {s : SeenKeys} {key : String} (h : s.table.find? key = none)
    (now : Instant) : ∃ t, s.receive key now = some t := by
  unfold receive
  rw [h]
  exact ⟨_, rfl⟩

theorem find?_receive {s t : SeenKeys} {key : String} {now : Instant}
    (h : s.receive key now = some t) (k : String) :
    t.table.find? k = if k = key then some ⟨now, false⟩ else s.table.find? k := by
  unfold receive at h
  cases hf : s.table.find? key with
  | some a => simp [hf] at h
  | none =>
    simp only [hf, Option.some.injEq] at h
    subst h
    exact s.table.find?_insert key k _

theorem find?_settle (s : SeenKeys) (key k : String) :
    (s.settle key).1.table.find? k =
      if k = key then (s.table.find? key).map fun a => { a with settled := true }
      else s.table.find? k := by
  unfold settle
  cases hf : s.table.find? key with
  | none =>
    by_cases hk : k = key
    · simp [hk, hf]
    · simp [hk]
  | some a => exact s.table.find?_insert key k _

theorem find?_prune (s : SeenKeys) (cutoff : Instant) (k : String) :
    (s.prune cutoff).table.find? k = (s.table.find? k).filter fun a => cutoff ≤ a.time :=
  s.table.find?_keepIf _ k

end SeenKeys

end MailCampaign
