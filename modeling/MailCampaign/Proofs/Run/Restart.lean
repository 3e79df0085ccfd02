import MailCampaign.Proofs.Engine.Posted
import MailCampaign.Proofs.World.Restore

/-!
# Runs and their snapshots

A snapshot taken between two operations of a run, with a part of the journal behind it, brings back
the session to which the run goes on. The part may start anywhere before the snapshot, as what it
repeats is in the snapshot already. The keys of events that come back and are not there any more were
forgotten by pruning.
-/

namespace MailCampaign

variable {σ : Type} {svc : Services σ} {allowed : Fault → Prop}
  {s t u : Session (σ × List Moment)} {slot : Slot} {x : Datum}

/-- An operation leads from one session of a run to the next. -/
structure Operation.Leads (svc : Services σ) (allowed : Fault → Prop) (op : Operation)
    (s t : Session (σ × List Moment)) : Prop where
  fresh : op.Fresh s.world
  faults : ∀ f, ((op.perform svc.recording).on s).1 = .error f → allowed f
  next : op.next svc s = t

/-- A run goes on from one session to another. -/
abbrev Session.Onward (svc : Services σ) (allowed : Fault → Prop) :
    Session (σ × List Moment) → Session (σ × List Moment) → Prop :=
  Relation.ReflTransGen fun s t => ∃ op, Operation.Leads svc allowed op s t

theorem Operation.Leads.postings {op : Operation} (h : op.Leads svc allowed s t) :
    s.world.Postings op.Prunes t.world := h.next ▸ op.perform_postings h.fresh

theorem Run.onward (h : Run svc allowed s) (ht : s.Onward svc allowed t) : Run svc allowed t := by
  induction ht with
  | refl => exact h
  | tail _ hstep ih =>
    obtain ⟨op, hop⟩ := hstep
    exact hop.next ▸ ih.step op hop.fresh hop.faults

theorem Session.Onward.postings (h : s.Onward svc allowed t) :
    s.world.Postings True t.world := by
  induction h with
  | refl => exact .refl
  | tail _ hstep ih =>
    obtain ⟨op, hop⟩ := hstep
    exact ih.trans (hop.postings.mono fun _ => trivial)

/-! ## Forgotten keys -/

/-- Pruning writes nothing down. -/
theorem Operation.trace_prune (svc : Services σ) (ttlHours : UInt64) (now : Instant)
    (s : Session σ) :
    (((Operation.prune ttlHours now).perform svc).on s).2.world.trace = s.world.trace := by
  have hkeeps : (Change.prune ttlHours now).Keeps fun w v => v.trace = w.trace := by
    have : IsPreorder World fun w v => v.trace = w.trace :=
      { refl := fun _ => rfl, trans := fun _ _ _ h h' => h'.trans h }
    exact (Change.Keeps.need _ _).bind fun ttl => (Change.Keeps.need _ _).bind fun cutoff =>
      .get fun w => rfl
  unfold perform
  rw [Engine.on_lift]
  exact hkeeps.discard s.world

/-- Without pruning, postings fill the slots that are written and leave the others. -/
theorem World.Postings.fills {w v : World} (h : w.Postings False v) :
    ∃ more, journaled v.trace = journaled w.trace ++ more ∧
      ∀ s, v.at? s = (written more s).or (w.at? s) := by
  refine h.preserves ⟨[], by simp, fun s => rfl⟩ ?_
  rintro u entries v h ⟨more, htrace, hu⟩
  refine ⟨more ++ entries, by rw [h.journaled_eq, htrace, List.append_assoc], fun s => ?_⟩
  rcases h.fills s with hv | ⟨hfalse, -⟩
  · rw [hv, hu, written_append, Option.or_assoc]
  · exact hfalse.elim

/-- An operation loses nothing of the world and of what it writes down, but for what it prunes. -/
theorem Operation.loses (svc : Services σ) {op : Operation} {s : Session σ}
    (hfresh : op.Fresh s.world) :
    ∃ more, journaled ((op.perform svc).on s).2.world.trace = journaled s.world.trace ++ more ∧
      ∀ slot x, (written more slot).or (s.world.at? slot) = some x →
        ((op.perform svc).on s).2.world.at? slot = some x ∨
          ∃ ttlHours now, op = .prune ttlHours now ∧ s.world.at? slot = some x ∧
            ((op.perform svc).on s).2.world.at? slot = none := by
  have hpostings : s.world.Postings op.Prunes ((op.perform svc).on s).2.world :=
    op.perform_postings hfresh
  by_cases hprunes : op.Prunes
  · cases op with
    | prune ttlHours now =>
      obtain ⟨more, htrace, horigin⟩ := hpostings.origin
      obtain rfl : more = [] := by
        rw [Operation.trace_prune svc ttlHours now s] at htrace
        simpa using htrace
      refine ⟨[], htrace, fun slot x hx => ?_⟩
      cases hnow : (((Operation.prune ttlHours now).perform svc).on s).2.world.at? slot with
      | some y => exact .inl ((horigin slot y hnow).symm.trans hx)
      | none => exact .inr ⟨ttlHours, now, rfl, hx, rfl⟩
    | _ => exact hprunes.elim
  · obtain ⟨more, htrace, hfills⟩ := (hpostings.mono hprunes).fills
    exact ⟨more, htrace, fun slot x hx => .inl ((hfills slot).trans hx)⟩

/-- A value of a slot was forgotten by pruning on the way of a run. -/
def Session.Forgot (svc : Services σ) (allowed : Fault → Prop) (slot : Slot) (x : Datum)
    (s : Session (σ × List Moment)) : Prop :=
  ∃ u v ttlHours now, Run svc allowed u ∧ (Operation.prune ttlHours now).Leads svc allowed u v ∧
    v.Onward svc allowed s ∧ u.world.at? slot = some x ∧ v.world.at? slot = none

theorem Session.Forgot.onward (h : s.Forgot svc allowed slot x) (ht : s.Onward svc allowed t) :
    t.Forgot svc allowed slot x := by
  obtain ⟨u, v, ttlHours, now, hu, hprune, hs, hslot⟩ := h
  exact ⟨u, v, ttlHours, now, hu, hprune, hs.trans ht, hslot⟩

/-- What a run has written last in a slot is there, or it was forgotten by pruning. -/
theorem Run.written_last (h : Run svc allowed s)
    (hx : written (journaled s.world.trace) slot = some x) :
    s.world.at? slot = some x ∨
      slot.Fleeting ∧ s.world.at? slot = none ∧ s.Forgot svc allowed slot x := by
  induction h generalizing x with
  | start => cases hx
  | @step s op hs hfresh hfaults ih =>
    have hop : op.Leads svc allowed s (op.next svc s) := ⟨hfresh, hfaults, rfl⟩
    have hgoes : s.Onward svc allowed (op.next svc s) := .single ⟨op, hop⟩
    obtain ⟨more, htrace, hmore⟩ := Operation.loses svc.recording hfresh
    obtain ⟨n, hn⟩ := (hs.step _ hfresh hfaults).postings
    rcases (World.rebuilds_journaled hn n).upheld hx with hkept | ⟨hf, hnone⟩
    · exact .inl hkept
    · refine .inr ⟨hf, hnone, ?_⟩
      -- What is gone was there before this operation, or it was forgotten earlier.
      have hpruned (hold : (written more slot).or (s.world.at? slot) = some x) :
          (op.next svc s).Forgot svc allowed slot x := by
        rcases hmore slot x hold with hkept | ⟨ttlHours, now, rfl, hold, -⟩
        · exact absurd (hnone.symm.trans hkept) (by simp)
        · exact ⟨s, _, ttlHours, now, hs, hop, .refl, hold, hnone⟩
      rw [show journaled (op.next svc s).world.trace = _ from htrace, written_append] at hx
      rcases Option.or_eq_some_iff.1 hx with hnew | ⟨hnothing, hold⟩
      · exact hpruned (by rw [hnew, Option.some_or])
      · rcases ih hold with hold | ⟨-, -, hforgot⟩
        · exact hpruned (by rw [hnothing, Option.none_or, hold])
        · exact hforgot.onward hgoes

/-! ## Going on from a snapshot -/

theorem Run.tidy (h : Run svc allowed s) : s.world.Tidy := by
  obtain ⟨n, hn⟩ := h.postings
  exact hn.tidy (World.tidy_empty n)

/-- The versions in the journal of a run are stored. -/
theorem Run.hasVersion (h : Run svc allowed s) (d : Definition)
    (hd : .flow d ∈ journaled s.world.trace) : s.world.HasVersion d := by
  obtain ⟨n, hn⟩ := h.postings
  exact hn.hasVersion_journaled (fun d hd => absurd hd List.not_mem_nil) d hd

/-- A snapshot with any later part of the journal up to it rebuilds the world of which it was
taken. -/
theorem Run.rebuilds_snapshot (h : Run svc allowed s) {snap : Snapshot}
    (hsnap : snap.Lists s.world) (n : Nat) {l : List Entry} (hl : l <:+ journaled s.world.trace) :
    ((World.empty n).restore snap).1.Rebuilds l s.world := by
  obtain ⟨m, hm⟩ := h.postings
  exact (World.rebuilds_journaled hm n).rebase (World.at?_restore hsnap h.tidy n) hl.subset
    fun slot x hx => written_of_suffix hl hx

/-- **A snapshot and the journal reproduce the engine.** Let a snapshot be taken between two
operations of a run, in any order, and let the run go on. Loading the snapshot into an empty world and
replaying the journal from any entry written before the snapshot restores the world to which the run
has come. The keys of counted events and the settled ones that come back are those that are there, with
the same instants, and some that a pruning of the run has forgotten. -/
theorem Run.snapshot_restores (h : Run svc allowed s) (ht : s.Onward svc allowed t)
    {snap : Snapshot} (hsnap : snap.Lists s.world) (n : Nat) {i : Nat}
    (hi : i ≤ (journaled s.world.trace).length) :
    World.Restores (((World.empty n).restore snap).1.replayAll ((journaled t.world.trace).drop i))
      t.world ∧
    ∀ slot x, slot.Fleeting →
      (((World.empty n).restore snap).1.replayAll
        ((journaled t.world.trace).drop i)).at? slot = some x →
      t.world.at? slot = some x ∨
        t.world.at? slot = none ∧ t.Forgot svc allowed slot x := by
  have htrun := h.onward ht
  have hs := h.rebuilds_snapshot hsnap n (List.drop_suffix i _)
  obtain ⟨more, htrace, hrebuilds⟩ := ht.postings.rebuilds hs h.tidy.versioned
  have hpart : (journaled t.world.trace).drop i = (journaled s.world.trace).drop i ++ more := by
    rw [htrace, List.drop_append_of_le_length hi]
  rw [hpart]
  constructor
  · refine hrebuilds.restores (World.copies_restore (fun d hd => ?_) n) htrun.tidy fun d hd => ?_
    · exact ht.postings.hasVersion (hsnap.mem_flows.1 hd)
    · exact htrun.hasVersion d ((List.drop_suffix i _).subset (hpart ▸ hd))
  · intro slot x hf hx
    rw [World.at?_replayAll hrebuilds.grounds, World.at?_restore hsnap h.tidy, written_append,
      Option.or_assoc] at hx
    -- What comes back from the snapshot was written before it.
    have hlast : written (journaled t.world.trace) slot = some x := by
      rw [htrace, written_append]
      refine Option.or_eq_some_iff.2 <| (Option.or_eq_some_iff.1 hx).imp_right <|
        And.imp_right fun hpast => ?_
      rcases Option.or_eq_some_iff.1 hpast with hrest | ⟨-, hhere⟩
      · exact written_of_suffix (List.drop_suffix i _) hrest
      · obtain ⟨m, hm⟩ := h.postings
        have hwritten := (World.rebuilds_journaled hm n).fleeting slot x hhere
        rwa [World.at?_empty, Option.or_none] at hwritten
    exact (htrun.written_last hlast).imp id fun h => h.2

/-- The snapshot of a short run before its lead enrolls. -/
def activatedSnapshot : Snapshot := (Session.activated.world.snapshot .epoch).sorted

theorem Run.snapshot_restores_enrolled :
    1 ≤ (journaled Session.activated.world.trace).length ∧
    World.Restores (((World.empty 5).restore activatedSnapshot).1.replayAll
      ((journaled Session.enrolled.world.trace).drop 1)) Session.enrolled.world ∧
    ∀ slot x, slot.Fleeting →
      (((World.empty 5).restore activatedSnapshot).1.replayAll
        ((journaled Session.enrolled.world.trace).drop 1)).at? slot = some x →
      Session.enrolled.world.at? slot = some x ∨ Session.enrolled.world.at? slot = none ∧
        Session.enrolled.Forgot .plain (fun _ => True) slot x := by
  have hrun : Run .plain (fun _ => True) .activated :=
    (Run.start 0 0).succeed (.activate (.ofNat 7) .followUp .epoch) rfl (by decide +kernel)
  have honward : Session.activated.Onward .plain (fun _ => True) .enrolled :=
    .single ⟨.enroll (.ofNat 7) .ada .epoch, trivial, fun _ _ => trivial, rfl⟩
  have hlength : 1 ≤ (journaled Session.activated.world.trace).length := by decide +kernel
  exact ⟨hlength, Run.snapshot_restores hrun honward
    (Session.activated.world.lists_snapshot .epoch).sorted 5 hlength⟩

end MailCampaign
