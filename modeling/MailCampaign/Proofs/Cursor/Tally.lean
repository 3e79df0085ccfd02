import MailCampaign.Cursor.Store
import MailCampaign.Statistics
import Mathlib.Data.List.Nodup

/-!
# The tally of cursors

The number of the cursors of a campaign and of those in each terminal state, as the totals of the
campaign would have them. A store with one more cursor or one in another form differs from the old one
by what that cursor counts for, and the tally depends on nothing but the cursor of each key.
-/

namespace MailCampaign

/-- Storing a value changes a count by what the value and the one before it count for. -/
theorem Table.countP_values_insert {κ ν : Type} [DecidableEq κ] (t : Table κ ν) (k : κ) (v : ν)
    (p : ν → Bool) :
    (t.insert k v).values.countP p + (t.find? k).toList.countP p =
      t.values.countP p + [v].countP p := by
  show ((place k v t.entries).map Prod.snd).countP p + (lookup k t.entries).toList.countP p =
    (t.entries.map Prod.snd).countP p + [v].countP p
  induction t.entries with
  | nil => simp [place, lookup]
  | cons e rest ih =>
    obtain ⟨k', v'⟩ := e
    by_cases hk : k' = k
    · simp only [place, lookup, hk, if_true, List.map_cons, List.countP_cons, List.countP_nil,
        Option.toList_some]
      omega
    · simp only [place, lookup, hk, if_false, List.map_cons, List.countP_cons] at ih ⊢
      omega

/-- Tables with the same values hold them equally often. -/
theorem Table.values_perm {κ ν : Type} [DecidableEq κ] {t u : Table κ ν}
    (h : ∀ k, t.find? k = u.find? k) : t.values.Perm u.values := by
  refine List.Perm.map _ ((List.perm_ext_iff_of_nodup (List.Nodup.of_map _ t.distinct)
    (List.Nodup.of_map _ u.distinct)).2 ?_)
  rintro ⟨k, v⟩
  exact (t.mem_toList).trans (by rw [h k]; exact u.mem_toList.symm)

/-- The totals that count cursors. -/
def Totals.outcomes (t : Totals) : Totals where
  enrolled := t.enrolled
  goalReached := t.goalReached
  completed := t.completed
  failed := t.failed
  canceled := t.canceled

theorem Totals.outcomes_count (t : Totals) (kind : EngagementKind) (first : Bool) :
    (t.count kind first).outcomes = t.outcomes := by
  cases kind <;> rfl

theorem Totals.outcomes_enroll (t : Totals) : t.enroll.outcomes = t.outcomes.enroll := rfl

theorem Totals.outcomes_finish (t : Totals) (state : CursorState) :
    (t.finish state).outcomes = t.outcomes.finish state := by
  cases state <;> rfl

namespace CursorStore

/-- The cursors of a campaign and those of them that ended, counted by their states. -/
def tally (s : CursorStore) (campaign : Uuid) : Totals where
  enrolled := UInt64.ofNat (s.all.countP fun c => c.campaignId == campaign)
  goalReached := UInt64.ofNat (s.countIn campaign .goalReached)
  completed := UInt64.ofNat (s.countIn campaign .completed)
  failed := UInt64.ofNat (s.countIn campaign .failed)
  canceled := UInt64.ofNat (s.countIn campaign .canceled)

variable {s t : CursorStore} {c d : Cursor} {campaign : Uuid}

/-- The tally depends on the cursor of each key alone. -/
theorem tally_congr (h : ∀ key, s.find? key = t.find? key) : s.tally = t.tally := by
  have hcount : ∀ p, s.all.countP p = t.all.countP p := fun p =>
    (Table.values_perm h).countP_eq p
  funext campaign
  simp only [tally, countIn, hcount]

/-- How often a test holds after a cursor took its place. -/
theorem countP_of_stored (h : ∀ key, t.find? key = if key = d.key then some d else s.find? key)
    (p : Cursor → Bool) :
    t.all.countP p + (s.find? d.key).toList.countP p = s.all.countP p + [d].countP p := by
  have hperm : t.all.Perm (s.cursors.insert d.key d).values :=
    Table.values_perm fun key => (h key).trans (s.cursors.find?_insert d.key key d).symm
  rw [hperm.countP_eq]
  exact s.cursors.countP_values_insert d.key d p

theorem countP_singleton_ite (c : Cursor) (p : Cursor → Bool) :
    [c].countP p = if p c = true then 1 else 0 := by
  simp [List.countP_cons]

/-- A cursor that has not ended is in no terminal state. -/
theorem beq_terminal {state state' : CursorState} (h : state.terminal = false)
    (h' : state'.terminal = true) : (state == state') = false := by
  rw [beq_eq_false_iff_ne]
  rintro rfl
  rw [h] at h'
  cases h'

/-- A new cursor that has not ended counts as enrolled. -/
theorem tally_entered (h : ∀ key, t.find? key = if key = d.key then some d else s.find? key)
    (hnew : s.find? d.key = none) (hd : d.state.terminal = false) :
    t.tally campaign =
      if campaign = d.campaignId then (s.tally campaign).enroll else s.tally campaign := by
  have hcount : ∀ p, t.all.countP p = s.all.countP p + if p d = true then 1 else 0 := by
    intro p
    have hp := countP_of_stored h p
    rw [hnew, countP_singleton_ite] at hp
    simpa using hp
  have hin : ∀ state : CursorState, state.terminal = true →
      t.countIn campaign state = s.countIn campaign state := by
    intro state hs
    rw [countIn, hcount, beq_terminal hd hs]
    simp [countIn]
  simp only [tally, hcount, hin .goalReached rfl, hin .completed rfl, hin .failed rfl,
    hin .canceled rfl, beq_iff_eq]
  by_cases hc : campaign = d.campaignId
  · simp [hc, Totals.enroll]
  · have hc' : ¬ d.campaignId = campaign := fun e => hc e.symm
    simp [hc, hc']

/-- A cursor that neither ended nor changed its state counts for the same as before. -/
theorem tally_rewritten (h : ∀ key, t.find? key = if key = d.key then some d else s.find? key)
    (hold : s.find? d.key = some c) (hcampaign : d.campaignId = c.campaignId)
    (hstate : d.state = c.state ∨ c.state.terminal = false ∧ d.state.terminal = false) :
    t.tally campaign = s.tally campaign := by
  have hcount : ∀ p, p c = p d → t.all.countP p = s.all.countP p := by
    intro p hp
    have hstored := countP_of_stored h p
    rw [hold, Option.toList_some, countP_singleton_ite, countP_singleton_ite, hp] at hstored
    omega
  have hin : ∀ state : CursorState, state.terminal = true →
      t.countIn campaign state = s.countIn campaign state := by
    intro state ht
    refine hcount _ ?_
    rw [hcampaign]
    rcases hstate with hs | ⟨hc, hd⟩
    · rw [hs]
    · rw [beq_terminal hc ht, beq_terminal hd ht]
  simp only [tally, hin .goalReached rfl, hin .completed rfl, hin .failed rfl, hin .canceled rfl]
  rw [hcount _ (by rw [hcampaign])]

/-- A running cursor that takes a new state counts for it, if it is terminal. -/
theorem tally_ended (h : ∀ key, t.find? key = if key = d.key then some d else s.find? key)
    (hold : s.find? d.key = some c) (hcampaign : d.campaignId = c.campaignId)
    (hc : c.state.terminal = false) :
    t.tally campaign =
      if campaign = d.campaignId then (s.tally campaign).finish d.state else s.tally campaign := by
  have hcount : ∀ p : Cursor → Bool,
      t.all.countP p + (if p c = true then 1 else 0) =
        s.all.countP p + if p d = true then 1 else 0 := by
    intro p
    have hstored := countP_of_stored h p
    rwa [hold, Option.toList_some, countP_singleton_ite, countP_singleton_ite] at hstored
  have henrolled : t.all.countP (fun c => c.campaignId == campaign) =
      s.all.countP (fun c => c.campaignId == campaign) := by
    have hsame := hcount fun c => c.campaignId == campaign
    rw [hcampaign] at hsame
    omega
  have hin : ∀ state : CursorState, state.terminal = true →
      t.countIn campaign state = s.countIn campaign state +
        if (d.campaignId == campaign && d.state == state) = true then 1 else 0 := by
    intro state ht
    have hsame := hcount fun c => c.campaignId == campaign && c.state == state
    rw [beq_terminal hc ht, Bool.and_false] at hsame
    simpa [countIn] using hsame
  simp only [tally, henrolled, hin .goalReached rfl, hin .completed rfl, hin .failed rfl,
    hin .canceled rfl]
  by_cases hcampaign' : campaign = d.campaignId
  · cases d.state <;> simp [hcampaign', Totals.finish]
  · have hne : ¬ d.campaignId = campaign := fun e => hcampaign' e.symm
    simp [hcampaign', hne]

end CursorStore

end MailCampaign
