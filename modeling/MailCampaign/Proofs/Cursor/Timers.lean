import MailCampaign.Cursor.Store
import Mathlib.Data.List.Perm.Basic

/-!
# The timers of a store

The timers of a store are exactly those of its cursors, each once. Putting a timer into its place
among others permutes it into the list, so only two facts count: the timer of a new cursor is not
there yet, and the timer of a replaced cursor is there once and taken away.
-/

namespace MailCampaign

theorem Timer.place_perm {t : Timer} {l : List Timer} (h : t ∉ l) : (t.place l).Perm (t :: l) := by
  induction l with
  | nil => exact .refl _
  | cons u rest ih =>
    unfold place
    have hne : t ≠ u := fun e => h (List.mem_cons.2 (.inl e))
    rw [if_neg hne]
    split
    · exact .refl _
    · have := ih fun hm => h (List.mem_cons_of_mem _ hm)
      exact (this.cons u).trans (.swap t u rest)

theorem Cursor.timer?_eq_some_iff {c : Cursor} {t : Timer} :
    c.timer? = some t ↔ c.nextRun = some t.deadline ∧ t.cursorId = c.id ∧ t.key = c.key := by
  obtain ⟨deadline, cursorId, key⟩ := t
  unfold timer?
  rw [Option.map_eq_some_iff]
  constructor
  · rintro ⟨u, hu, h⟩
    injection h with h₁ h₂ h₃
    exact ⟨h₁ ▸ hu, h₂.symm, h₃.symm⟩
  · rintro ⟨hu, rfl, rfl⟩
    exact ⟨deadline, hu, rfl⟩

namespace CursorStore

/-- The timers of a store are those of its cursors, each once. -/
structure TimersExact (s : CursorStore) : Prop where
  nodup : s.timers.Nodup
  mem_iff : ∀ t, t ∈ s.timers ↔ ∃ c, s.find? t.key = some c ∧ c.timer? = some t

theorem timersExact_empty : empty.TimersExact where
  nodup := List.nodup_nil
  mem_iff := by
    intro t
    rw [find?_empty]
    constructor
    · intro h; cases h
    · rintro ⟨c, h, -⟩; cases h

/-- A timer is put beside timers of other cursors. -/
theorem withTimer_exact {timers : List Timer} {c : Cursor} (hn : timers.Nodup)
    (hk : ∀ t ∈ timers, t.key ≠ c.key) :
    (withTimer timers c).Nodup ∧
      ∀ t, t ∈ withTimer timers c ↔ t ∈ timers ∨ c.timer? = some t := by
  unfold withTimer
  cases ht : c.timer? with
  | none => exact ⟨hn, fun t => by simp⟩
  | some u =>
    have hu : u ∉ timers := fun hm => hk u hm (Cursor.timer?_eq_some_iff.1 ht).2.2
    have hp := Timer.place_perm hu
    refine ⟨hp.nodup_iff.2 (List.nodup_cons.2 ⟨hu, hn⟩), fun t => ?_⟩
    rw [hp.mem_iff, List.mem_cons, Option.some.injEq, or_comm, eq_comm]

variable {s : CursorStore}

theorem TimersExact.key_ne (h : s.TimersExact) {key : CursorKey} (hk : s.find? key = none) :
    ∀ t ∈ s.timers, t.key ≠ key := by
  intro t ht e
  obtain ⟨c, hc, -⟩ := (h.mem_iff t).1 ht
  rw [e, hk] at hc
  cases hc

/-- The timers of other cursors are left when the timer of one is taken away. -/
theorem TimersExact.mem_withoutTimer (h : s.TimersExact) {c : Cursor}
    (hc : s.find? c.key = some c) (t : Timer) :
    t ∈ withoutTimer s.timers c ↔ t ∈ s.timers ∧ t.key ≠ c.key := by
  have hown : ∀ u ∈ s.timers, u.key = c.key → c.timer? = some u := by
    intro u hu e
    obtain ⟨d, hd, hu'⟩ := (h.mem_iff u).1 hu
    rw [e, hc] at hd
    injection hd with hd
    rw [hd, hu']
  unfold withoutTimer
  cases hu : c.timer? with
  | none =>
    refine ⟨fun ht => ⟨ht, fun e => ?_⟩, fun ht => ht.1⟩
    rw [hown t ht e] at hu
    cases hu
  | some u =>
    rw [h.nodup.mem_erase_iff]
    have hukey := (Cursor.timer?_eq_some_iff.1 hu).2.2
    constructor
    · rintro ⟨hne, ht⟩
      refine ⟨ht, fun e => hne ?_⟩
      rw [hown t ht e] at hu
      exact Option.some.inj hu
    · rintro ⟨ht, hne⟩
      exact ⟨fun e => hne (e ▸ hukey), ht⟩

theorem nodup_withoutTimer {timers : List Timer} (h : timers.Nodup) (c : Cursor) :
    (withoutTimer timers c).Nodup := by
  unfold withoutTimer
  split
  · exact h.erase _
  · exact h

/-- What both ways of storing a cursor have in common: the timers of the others stay. -/
theorem timersExact_of_stored {s u : CursorStore} {c : Cursor} {others : List Timer}
    (hfind : ∀ key, u.find? key = if key = c.key then some c else s.find? key)
    (hn : others.Nodup)
    (hmem : ∀ t, t ∈ others ↔ t.key ≠ c.key ∧ ∃ d, s.find? t.key = some d ∧ d.timer? = some t)
    (hu : u.timers = withTimer others c) : u.TimersExact := by
  obtain ⟨hn', hm'⟩ := withTimer_exact hn fun t ht => ((hmem t).1 ht).1
  refine ⟨hu ▸ hn', fun t => ?_⟩
  rw [hu, hm' t, hmem t, hfind]
  by_cases hk : t.key = c.key
  · rw [if_pos hk]
    simp [hk]
  · rw [if_neg hk]
    refine ⟨fun ht => ht.elim And.right fun ht => ?_, fun ht => .inl ⟨hk, ht⟩⟩
    exact absurd (Cursor.timer?_eq_some_iff.1 ht).2.2 hk

theorem TimersExact.addNew (h : s.TimersExact) {c : Cursor} (hc : s.find? c.key = none) :
    (s.addNew c).TimersExact := by
  refine timersExact_of_stored (s.find?_addNew c) h.nodup (fun t => ?_) rfl
  rw [← h.mem_iff t]
  exact ⟨fun ht => ⟨h.key_ne hc t ht, ht⟩, And.right⟩

theorem TimersExact.replace (h : s.TimersExact) {old new : Cursor}
    (hold : s.find? old.key = some old) (hkey : new.key = old.key) :
    (s.replace old new).TimersExact := by
  refine timersExact_of_stored (s.find?_replace old new) (nodup_withoutTimer h.nodup old)
    (fun t => ?_) rfl
  rw [h.mem_withoutTimer hold, h.mem_iff t, hkey, and_comm]

/-- A timer that is not touched is that of the new form too. -/
theorem TimersExact.amend (h : s.TimersExact) {old new : Cursor} (hold : s.find? old.key = some old)
    (hkey : new.key = old.key) (hid : new.id = old.id) : (s.amend old new).TimersExact := by
  by_cases hrun : old.nextRun = new.nextRun
  · have htimer : new.timer? = old.timer? := by rw [Cursor.timer?, Cursor.timer?, hrun, hid, hkey]
    have htimers : (s.amend old new).timers = s.timers := if_pos hrun
    refine ⟨htimers ▸ h.nodup, fun t => ?_⟩
    rw [htimers, h.mem_iff t, find?_amend]
    by_cases hk : t.key = new.key
    · rw [if_pos hk, hk, hkey, hold]
      simp [htimer]
    · rw [if_neg hk]
  · have hsame : { old with id := new.id } = old := by rw [hid]
    refine timersExact_of_stored (s.find?_amend old new) (nodup_withoutTimer h.nodup old)
      (fun t => ?_) ((if_neg hrun).trans (by rw [hsame]))
    rw [h.mem_withoutTimer hold, h.mem_iff t, hkey, and_comm]

theorem TimersExact.put (h : s.TimersExact) (c : Cursor) : (s.put c).TimersExact := by
  unfold CursorStore.put
  split
  · next old hold =>
    have hkey := key_eq_of_find? hold
    exact h.replace (hkey.symm ▸ hold) hkey.symm
  · next hnone => exact h.addNew hnone

/-- A cursor with a timer has one entry among the timers, and it is that timer. -/
theorem TimersExact.entries_of_find? (h : s.TimersExact) {key : CursorKey} {c : Cursor}
    (hc : s.find? key = some c) :
    s.timers.filter (fun t => decide (t.key = key)) = c.timer?.toList := by
  have hmem : ∀ t, t ∈ s.timers.filter (fun t => decide (t.key = key)) ↔ t ∈ c.timer?.toList := by
    intro t
    rw [List.mem_filter, decide_eq_true_iff, h.mem_iff t, Option.mem_toList]
    constructor
    · rintro ⟨⟨d, hd, ht⟩, hk⟩
      rw [hk, hc] at hd
      injection hd with hd
      rw [hd, ht]
    · intro ht
      have hk : t.key = key := (Cursor.timer?_eq_some_iff.1 ht).2.2.trans (key_eq_of_find? hc)
      exact ⟨⟨c, hk ▸ hc, ht⟩, hk⟩
  have hperm := (List.perm_ext_iff_of_nodup (h.nodup.filter _) (by
    cases c.timer? <;> simp)).2 hmem
  cases ht : c.timer? with
  | none =>
    rw [ht] at hperm
    exact hperm.eq_nil
  | some t =>
    rw [ht] at hperm
    exact hperm.eq_singleton

end CursorStore

end MailCampaign
