import MailCampaign.Proofs.World.Registry

/-!
# Pending keys

The key of an event is pending from when it is let in until it is settled, which is when the event has
gone to all its cursors. Meanwhile every event of that key is turned away, so nobody else settles it.
Whatever is done to a world while cursors are dispatched leaves a pending key as it is: let in, counted
and not settled (`Deed.suspends`).
-/

namespace MailCampaign

/-- A key that was let in at an instant and is not settled, while its event was counted at an instant. -/
structure World.Pending (w : World) (key : String) (admitted counted : Instant) : Prop where
  seen : w.seen.table.find? key = some ⟨admitted, false⟩
  applied : w.statistics.applied.find? key = some counted

/-- A later world in which a key is pending if it was. -/
def World.Suspends (key : String) (admitted counted : Instant) (w v : World) : Prop :=
  w.Pending key admitted counted → v.Pending key admitted counted

variable {key : String} {admitted counted now : Instant} {e : Engagement}

instance : IsPreorder World (World.Suspends key admitted counted) where
  refl := fun _ h => h
  trans := fun _ _ _ h h' hw => h' (h hw)

namespace World

variable {w v : World} {mails interrupted : Prop}

/-- A pending key counts for nothing yet in the journal. -/
theorem Pending.at?_settled (h : w.Pending key admitted counted) : w.at? (.settled key) = none := by
  rw [at?, h.seen]
  rfl

theorem suspends_of_eq (hseen : v.seen = w.seen)
    (happlied : v.statistics.applied = w.statistics.applied) :
    w.Suspends key admitted counted v :=
  fun h => ⟨by rw [hseen, h.seen], by rw [happlied, h.applied]⟩

theorem SameKeys.suspends (h : w.SameKeys v) : w.Suspends key admitted counted v :=
  suspends_of_eq h.seen h.applied

theorem suspends_count (w : World) (only : Option CursorKey) (received : Instant) :
    w.Suspends key admitted counted (w.count e only received) := by
  refine fun h => ⟨by rw [seen_count, h.seen], ?_⟩
  rw [applied_count]
  split
  · next hk => rw [← hk, h.applied, Option.getD_some]
  · exact h.applied

/-- Pruning leaves a key pending that was let in and counted from the cutoff on. -/
theorem suspends_pruned {cutoff : Instant} (hadmitted : cutoff ≤ admitted)
    (hcounted : cutoff ≤ counted) : w.Suspends key admitted counted
      { w with seen := w.seen.prune cutoff, statistics := w.statistics.prune cutoff } := by
  refine fun h => ⟨?_, (Table.find?_keepIf _ _ _).trans ?_⟩
  · rw [SeenKeys.find?_prune, h.seen, Option.filter_some, if_pos (decide_eq_true hadmitted)]
  · rw [h.applied, Option.filter_some, if_pos (decide_eq_true hcounted)]

theorem Deed.suspends_uninterrupted (h : w.Deed mails False v) :
    w.Suspends key admitted counted v := by
  have hsteady : w.Steady .opened v := h.steady_uninterrupted nofun
  exact fun hw => ⟨by rw [h.level.seen, hw.seen], hsteady.applied key counted hw.applied⟩

end World

namespace Change

open World

theorem receive_suspends : (receive e now).Keeps (Suspends key admitted counted) := by
  refine .get fun w => ?_
  cases hseen : w.seen.receive e.key now with
  | none => exact fun h => h
  | some seen =>
    refine fun h => ⟨?_, h.applied⟩
    have hother : key ≠ e.key := by
      rintro rfl
      cases (SeenKeys.fresh_of_receive hseen).symm.trans h.seen
    exact (SeenKeys.find?_receive hseen key).trans ((if_neg hother).trans h.seen)

theorem settle_suspends (hother : e.key ≠ key) :
    (settle e.key).Keeps (Suspends key admitted counted) := by
  intro w h
  obtain ⟨hseen, hstatistics, -⟩ := w.settle_frame e.key
  exact ⟨by rw [hseen, SeenKeys.find?_settle, if_neg hother.symm, h.seen],
    by rw [hstatistics, h.applied]⟩

/-- An event that stops its lead has another key, or it is turned away. -/
theorem ingestHalting_suspends : (ingestHalting e now).Keeps (Suspends key admitted counted) := by
  by_cases hk : e.key = key
  · intro w h
    have hturned : (ingestHalting e now).on w = (.ok { key := e.key, duplicate := true }, w) :=
      on_bind_ok (on_receive_seen (hk ▸ h.seen) now)
    rw [hturned]
    exact h
  · refine .ingestHalting receive_suspends (.apply fun w => suspends_count w none now)
      (fun cursor w => ?_) (settle_suspends hk)
    have hdeeds : w.Deeds False False ((cancel cursor ("lead " ++ e.kind.name) now).on w).2 :=
      cancel_deeds w
    exact hdeeds.keeps fun _ _ h => h.suspends_uninterrupted

end Change

/-- What is done while cursors are dispatched leaves a pending key as it is, also from outside. -/
theorem World.Deed.suspends {w v : World} {mails interrupted : Prop}
    (h : w.Deed mails interrupted v) : w.Suspends key admitted counted v := by
  obtain hinside | ⟨campaign, status, rfl⟩ | ⟨e, now, -, -, rfl⟩ := h.inside_or
  · exact hinside.suspends_uninterrupted
  · exact suspends_of_eq rfl rfl
  · exact Change.ingestHalting_suspends w

end MailCampaign
