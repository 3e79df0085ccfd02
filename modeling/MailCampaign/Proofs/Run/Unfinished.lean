import MailCampaign.Proofs.Engine.Routed
import MailCampaign.Proofs.Run.InTime
import MailCampaign.Proofs.Run.Lineage
import MailCampaign.Proofs.Run.Redelivery
import MailCampaign.Proofs.Run.Retention
import MailCampaign.Proofs.World.Pending

/-!
# Events that do not get to all their cursors

An event that comes upon a time out of range on its way leaves cursors behind that go on waiting for it.
Its key was let in and is not settled.

1. The engine keeps the key pending, whatever it does then, until pruning forgets it
   (`Operation.perform_suspends`). So it turns the event away, and the cursors wait in vain
   (`Pending.turnsAway`).
2. Only settled keys are saved and written down. So an engine that starts from a snapshot, or from the
   journal, does not know the key (`Pending.unseen_restored`, `Lineage.unseen_replayed`) but knows that
   its event was counted.
3. In such an engine the event is no duplicate. It is sent on its way to the cursors that still wait, and
   it is not counted again (`Regains.retries`).
-/

namespace MailCampaign

variable {σ : Type} {svc : Services σ} {s t : Session σ} {e : Engagement} {key : String}
  {admitted counted now : Instant}

/-! ## While a key is pending -/

namespace Change

open World

theorem activate_suspends {campaign : Uuid} (document : Document) :
    (activate campaign document now).Keeps (Suspends key admitted counted) :=
  (activate_sameKeys document).mono fun _ _ h => h.suspends

theorem addLead_suspends {campaign : Uuid} (lead : Lead) :
    (Engine.addLead campaign lead now).Keeps (Suspends key admitted counted) :=
  (addLead_sameKeys lead).mono fun _ _ h => h.suspends

theorem prune_suspends {ttlHours : UInt64}
    (hspares : ∀ t, t = admitted ∨ t = counted → (Operation.prune ttlHours now).Spares t) :
    (prune ttlHours now).Keeps (Suspends key admitted counted) := by
  intro w
  rcases w.on_prune_cases ttlHours now with hsame | ⟨ttl, cutoff, httl, hcutoff, hpruned⟩
  · rw [hsame]
    exact refl_of (Suspends key admitted counted) w
  · rw [hpruned]
    exact suspends_pruned ((hspares _ (.inl rfl)).cutoff_le httl hcutoff)
      ((hspares _ (.inr rfl)).cutoff_le httl hcutoff)

end Change

/-- Deeds leave a pending key as it is, and so do mails that are handed over. -/
theorem Session.Deeds.suspends {mails interrupted : Prop} (h : s.Deeds svc mails interrupted t) :
    s.world.Suspends key admitted counted t.world :=
  h.keeps (fun _ _ h => h.suspends) fun _ _ => World.suspends_of_eq rfl rfl

namespace Engine

open Session

theorem dispatch_suspends (trigger : Trigger) (now : Instant) (cursor : CursorKey) :
    (dispatch svc cursor trigger now).Keeps (Worlds (World.Suspends key admitted counted)) := by
  intro s
  have hdeeds : s.Deeds svc True True ((dispatch svc cursor trigger now).on s).2 :=
    dispatch_deeds trivial (.inr trivial) trigger now cursor s
  exact hdeeds.suspends

/-- An event has another key than the pending one, or it is turned away. -/
theorem ingest_suspends :
    (ingest svc e now).Keeps (Worlds (World.Suspends key admitted counted)) := by
  by_cases hk : e.key = key
  · intro s h
    rw [on_ingest_seen (hk ▸ h.seen)]
    exact h
  · exact .ingest (worlds_lift Change.ingestHalting_suspends) (worlds_lift Change.receive_suspends)
      (worlds_lift (.apply fun w => w.suspends_count none now))
      (worlds_lift (Change.settle_suspends hk)) (dispatch_suspends (.event e) now)

end Engine

/-- An operation leaves a pending key as it is, unless it prunes what was let in or counted then. -/
theorem Operation.perform_suspends {op : Operation}
    (hspares : ∀ t, t = admitted ∨ t = counted → op.Spares t) :
    (op.perform svc).Keeps (Session.Worlds (World.Suspends key admitted counted)) := by
  have hdispatch : ∀ trigger now cursor, (Engine.dispatch svc cursor trigger now).Keeps
      (Session.Worlds (World.Suspends key admitted counted)) := Engine.dispatch_suspends
  have hcontrol : ∀ {c : Change PUnit}, c.Keeps (World.Deeds True True) →
      (liftM c : Engine σ PUnit).Keeps (Session.Worlds (World.Suspends key admitted counted)) := by
    intro c hc s
    have hdeeds : s.Deeds svc True True ((liftM c : Engine σ PUnit).on s).2 :=
      Engine.deeds_lift hc s
    exact hdeeds.suspends
  cases op with
  | activate campaign document now =>
    exact Engine.worlds_lift (Change.activate_suspends document).discard
  | enroll campaign lead now =>
    exact (Engine.Keeps.enroll (Engine.worlds_lift (Change.addLead_suspends lead))
      (hdispatch .enter now) fun key => Engine.worlds_lift (.cursor key)).discard
  | ingest e now => exact Engine.ingest_suspends.discard
  | dispatch key trigger now => exact (hdispatch trigger now key).discard
  | tick batchSize now => exact (Engine.Keeps.tick (hdispatch .timer now) batchSize).discard
  | pause campaign now => exact hcontrol (Change.pause_deeds trivial).discard
  | cancel campaign now => exact hcontrol (Change.cancelCampaign_deeds trivial).discard
  | resume campaign => exact hcontrol (Change.resume_deeds trivial)
  | prune ttlHours now => exact Engine.worlds_lift (Change.prune_suspends hspares).discard
  | recover now => exact (Engine.Keeps.recover (hdispatch .enter now)).discard

/-- A pending key stays so along an operation, and the operation does not write that it is settled. -/
theorem Operation.written_settled (svc : Services σ) {op : Operation} (hfresh : op.Fresh s.world)
    (hbefore : s.world.at? (.settled key) = none)
    (hafter : ((op.perform svc).on s).2.world.at? (.settled key) = none) :
    written (journaled ((op.perform svc).on s).2.world.trace) (.settled key) =
      written (journaled s.world.trace) (.settled key) := by
  obtain ⟨more, htrace, hmore⟩ := Operation.loses svc hfresh
  rw [htrace, written_append]
  cases hw : written more (.settled key) with
  | none => exact Option.none_or
  | some x =>
    -- What is written is there afterwards, or it was there before and is forgotten.
    rcases hmore (.settled key) x (by rw [hw, Option.some_or]) with hkept | ⟨-, -, -, hold, -⟩
    · cases hafter.symm.trans hkept
    · cases hbefore.symm.trans hold

namespace World

/-- Any operations, with any mailers, that forget nothing of some instants. -/
abbrev Continues (kept : Instant → Prop) : World → World → Prop :=
  Relation.ReflTransGen fun w v => ∃ (σ : Type) (svc : Services σ) (mailer : σ) (op : Operation),
    op.Fresh w ∧ (∀ t, kept t → op.Spares t) ∧ v = ((op.perform svc).on ⟨w, mailer⟩).2.world

variable {base w v r : World} {snap : Snapshot}

/-- Whatever an engine does, a pending key stays pending and is not written. -/
theorem Pending.continues (hw : w.Pending key admitted counted)
    (h : w.Continues (fun t => t = admitted ∨ t = counted) v) :
    v.Pending key admitted counted ∧
      written (journaled v.trace) (.settled key) = written (journaled w.trace) (.settled key) := by
  induction h with
  | refl => exact ⟨hw, rfl⟩
  | @tail v u _ hstep ih =>
    obtain ⟨σ, svc, mailer, op, hfresh, hspares, rfl⟩ := hstep
    have hpending : World.Pending ((op.perform svc).on ⟨v, mailer⟩).2.world key admitted counted :=
      op.perform_suspends hspares ⟨v, mailer⟩ ih.1
    exact ⟨hpending, (op.written_settled svc (s := ⟨v, mailer⟩) hfresh ih.1.at?_settled
      hpending.at?_settled).trans ih.2⟩

theorem Lineage.continues {kept : Instant → Prop} (hw : base.Lineage w) (h : w.Continues kept v) :
    base.Lineage v := by
  induction h with
  | refl => exact hw
  | tail _ hstep ih =>
    obtain ⟨σ, svc, mailer, op, hfresh, -, rfl⟩ := hstep
    exact .perform svc mailer op ih hfresh

/-- As long as a key is pending, its event is turned away. -/
theorem Pending.turnsAway (h : w.Pending key admitted counted) : w.TurnsAway key := by
  rintro τ svc r e now hseen rfl
  exact Engine.on_ingest_seen (hseen ▸ h.seen) svc now

end World

namespace Engine

/-- An event that does not get to the end of its way came upon a time out of range. It is counted once,
unless it was counted before, and its key is pending. -/
theorem ingest_failed {x : Fault} (hw : s.world.Versioned)
    (hfresh : s.world.seen.table.find? e.key = none)
    (h : (ingest svc e now).on s = (.error x, t)) :
    x = .outOfRange ∧ e.haltsLead = false ∧
      t.world.Pending e.key now ((s.world.statistics.applied.find? e.key).getD now) ∧
      (s.world.statistics.applied.find? e.key = none → s.world.CountedOnce e now t.world) ∧
      (s.world.statistics.applied.find? e.key ≠ none → s.world.Steady e.kind t.world) := by
  have hhalts : e.haltsLead = false := by
    refine Bool.eq_false_iff.2 fun he => ?_
    obtain ⟨report, u, hon⟩ := ingest_halting he svc now s
    rw [h] at hon
    cases hon
  obtain ⟨seen, hseen⟩ := SeenKeys.receive_of_fresh hfresh now
  let w : World := { s.world with seen }
  let r : Session σ := { s with world := w.count e none now }
  have hversioned : r.world.Versioned := by
    have hpostings : w.Postings False r.world := World.count_postings e w none now
    exact hpostings.preserves (motive := World.Versioned) hw fun _ _ _ h => h.versioned
  have hpending : r.world.Pending e.key now ((s.world.statistics.applied.find? e.key).getD now) := by
    refine ⟨?_, (World.applied_count w e none now e.key).trans (if_pos rfl)⟩
    rw [World.seen_count]
    exact (SeenKeys.find?_receive hseen e.key).trans (if_pos rfl)
  have hway : r.Deeds svc True True ((onward svc e now).on r).2 :=
    onward_deeds trivial (.inr trivial) r
  have hsteady : r.world.Steady e.kind ((onward svc e now).on r).2.world := onward_steady r
  have honce : s.world.statistics.applied.find? e.key = none →
      s.world.CountedOnce e now ((onward svc e now).on r).2.world := onward_counted svc seen
  rw [on_ingest_new hseen, on_process] at h
  rcases hon : (onward svc e now).on r with ⟨y | report, u⟩ <;> rw [hon] at h hway hsteady honce
  · obtain ⟨hy, rfl⟩ := Prod.mk.inj h
    obtain rfl := Except.error.inj hy
    refine ⟨onward_fault hversioned (by rw [hon]), hhalts, hway.suspends hpending, honce,
      fun happlied => ?_⟩
    obtain ⟨first, hfirst⟩ := Option.ne_none_iff_exists'.1 happlied
    have hagain : r.world = w := World.count_again (w := w) hfirst none
    exact trans_of (World.Steady e.kind) (World.steady_of_eq (by rw [hagain])) hsteady
  · cases h

end Engine

/-! ## Engines that start again -/

namespace World

variable {base w r : World} {snap : Snapshot}

/-- A world in which an engine starts that takes the place of another one. It has in each slot what was
there, but it may have keys that were pruned. -/
structure Regains (w r : World) : Prop where
  lineage : r.Lineage r
  lasting : ∀ slot : Slot, ¬ slot.Fleeting → r.at? slot = w.at? slot
  applied : ∀ key t, w.statistics.applied.find? key = some t →
    r.statistics.applied.find? key = some t

theorem Lineage.at?_restore (h : base.Lineage w) (hsnap : snap.Lists w) (n : Nat) (slot : Slot) :
    ((World.empty n).restore snap).1.at? slot = w.at? slot :=
  at?_restore_of hsnap h.known.inOrder.leads h.known.sound.versioned n slot

theorem Lineage.regains_restored (h : base.Lineage w) (hsnap : snap.Lists w) (n : Nat) :
    w.Regains ((World.empty n).restore snap).1 where
  lineage := .restored n h hsnap
  lasting := fun slot _ => h.at?_restore hsnap n slot
  applied := fun _ _ ht =>
    at?_applied_iff.1 ((h.at?_restore hsnap n _).trans (at?_applied_iff.2 ht))

/-- The journal of an engine rebuilds its world on the one in which it started. -/
theorem Lineage.rebuilds (h : base.Lineage w) : base.Rebuilds (journaled w.trace) w := by
  obtain ⟨more, htrace, hrebuilds⟩ := h.postings.rebuilds (rebuilds_nil fun _ => rfl)
    h.root.known.sound.versioned
  rw [h.known.unwritten] at htrace
  rw [htrace]
  exact hrebuilds

theorem Lineage.at?_replayed (h : base.Lineage w) (n : Nat) (slot : Slot) :
    ({ base.replayAll (journaled w.trace) with nextId := n } : World).at? slot =
      (written (journaled w.trace) slot).or (base.at? slot) :=
  (at?_nextId _ n slot).trans (at?_replayAll h.rebuilds.grounds slot)

theorem Lineage.regains_replayed (h : base.Lineage w) (n : Nat) :
    w.Regains { base.replayAll (journaled w.trace) with nextId := n } where
  lineage := .replayed n h List.prefix_rfl
  lasting := fun slot hslot => (h.at?_replayed n slot).trans (h.rebuilds.lasting slot hslot)
  applied := fun _ _ ht => at?_applied_iff.1
    ((h.at?_replayed n _).trans (h.rebuilds.fleeting _ _ (at?_applied_iff.2 ht)))

/-- All keys are settled where an engine starts. -/
theorem Lineage.allSettled (h : base.Lineage w) : base.AllSettled := by
  induction h with
  | empty n => exact allSettled_empty n
  | perform _ _ _ _ _ ih => exact ih
  | restored n _ _ _ => exact (allSettled_empty n).restore _
  | replayed n _ _ ih => exact ih.replayAll _

theorem AllSettled.unseen (h : r.AllSettled) (hslot : r.at? (.settled key) = none) :
    r.seen.table.find? key = none := by
  rw [h.at?_eq, Option.map_eq_none_iff, Option.map_eq_none_iff] at hslot
  exact hslot

/-- A snapshot does not list a key that is pending. -/
theorem Pending.unseen_restored (hw : w.Pending key admitted counted) (h : base.Lineage w)
    (hsnap : snap.Lists w) (n : Nat) :
    ((World.empty n).restore snap).1.seen.table.find? key = none :=
  ((allSettled_empty n).restore snap).unseen ((h.at?_restore hsnap n _).trans hw.at?_settled)

/-- Replaying the journal brings no key back that was never settled. -/
theorem Lineage.unseen_replayed (h : base.Lineage w) (hbase : base.seen.table.find? key = none)
    (hjournal : written (journaled w.trace) (.settled key) = none) (n : Nat) :
    ({ base.replayAll (journaled w.trace) with nextId := n } : World).seen.table.find? key = none := by
  have hsettled := h.allSettled.replayAll (journaled w.trace)
  refine AllSettled.unseen (r := { base.replayAll (journaled w.trace) with nextId := n }) hsettled
    ((h.at?_replayed n _).trans ?_)
  rw [hjournal, Option.none_or, at?, hbase]
  rfl

end World

/-- Where the same cursors are stored, the same ones wait for an event. -/
theorem CursorStore.Indexed.awaiting_perm {a b : CursorStore} (ha : a.Indexed) (hb : b.Indexed)
    (h : ∀ key, a.find? key = b.find? key) (e : Engagement) : (a.awaiting e).Perm (b.awaiting e) := by
  unfold awaiting ofLeadWhere
  simp only [h]
  exact (ha.ofLead_perm hb h e.leadId).filter _

/-- The report of an event that is routed counts the cursors that waited for it, unless their campaign is
halted. -/
theorem Engine.route_report {report : IngestReport} (h : ((route svc e now).on s).1 = .ok report) :
    report.duplicate = false ∧ report.routed =
      if (s.world.status e.campaignId).halts then 0 else (s.world.cursors.awaiting e).length := by
  unfold route at h
  rw [on_bind_ok (on_world s)] at h
  split at h
  · next hst =>
    rw [if_pos hst]
    exact Except.ok.inj h ▸ ⟨rfl, rfl⟩
  · next hst =>
    rw [if_neg hst]
    rw [on_bind] at h
    split at h
    · exact Except.ok.inj h ▸ ⟨rfl, rfl⟩
    · cases h

/-- An event that was counted is taken in again. It is let in and goes on its way without being counted.
Unless a time is out of range, there is a report that calls it no duplicate and counts the cursors that
waited for it, if their campaign is not halted; and with a mailer that lets nothing happen while it is at
work, the event got to each of them. No total of its kind changes. -/
structure Engine.Retries (svc : Services σ) (e : Engagement) (later : Instant) (s : Session σ) :
    Prop where
  way : ∃ seen, s.world.seen.receive e.key later = some seen ∧
    (ingest svc e later).on s = (process svc e later).on { s with world := { s.world with seen } }
  result : ((ingest svc e later).on s).1 = .error .outOfRange ∨
    ∃ report, ((ingest svc e later).on s).1 = .ok report ∧ report.duplicate = false ∧
      report.routed =
        if (s.world.status e.campaignId).halts then 0 else (s.world.cursors.awaiting e).length
  routed : svc.mailer.Quiet → ((ingest svc e later).on s).1 ≠ .error .outOfRange →
    ∀ c, s.world.cursors.find? c.key = some c → c.awaits e = true →
      ∃ d, ((ingest svc e later).on s).2.world.cursors.find? c.key = some d ∧ c.AfterEvent d
  steady : s.world.Steady e.kind ((ingest svc e later).on s).2.world

/-- A world in which an event is taken in that got lost in another one: the same cursors are stored and
wait for the event, the totals are the same, and any engine at any time takes the event in again. -/
structure World.Retries (e : Engagement) (w r : World) : Prop where
  cursors : ∀ key, r.cursors.find? key = w.cursors.find? key
  waiting : (r.cursors.awaiting e).Perm (w.cursors.awaiting e)
  totals : ∀ campaign, r.statistics.of campaign = w.statistics.of campaign
  taken : ∀ (σ : Type) (svc : Services σ) (mailer : σ) (later : Instant),
    Engine.Retries svc e later ⟨r, mailer⟩

/-- An event that was counted and is let in again is taken in. -/
theorem Engine.retries_of_counted (hs : s.world.Sound) (hi : s.world.cursors.Indexed)
    (hfresh : s.world.seen.table.find? e.key = none)
    (happlied : s.world.statistics.applied.find? e.key = some counted) (hkind : e.haltsLead = false)
    (later : Instant) : Engine.Retries svc e later s := by
  obtain ⟨seen, hseen⟩ := SeenKeys.receive_of_fresh hfresh later
  let w : World := { s.world with seen }
  let r : Session σ := { s with world := w }
  have hcount : w.count e none later = w := World.count_again (w := w) happlied none
  have hway : (ingest svc e later).on s = (process svc e later).on r := by
    rw [on_ingest_new hseen, hcount]
  have honward : onward svc e later = route svc e later := if_neg (Bool.eq_false_iff.1 hkind)
  have hletIn : s.world.Steady e.kind w := World.steady_of_eq rfl
  have hsteady : s.world.Steady e.kind ((onward svc e later).on r).2.world :=
    trans_of (World.Steady e.kind) hletIn (onward_steady r)
  refine ⟨⟨seen, hseen, hway⟩, ?_, fun hq hresult c hc hawaits => ?_, ?_⟩
  · rw [hway, on_process]
    rcases hon : (onward svc e later).on r with ⟨x | report, u⟩
    · obtain rfl := onward_fault (s := r) hs.versioned (by rw [hon])
      exact .inl rfl
    · rw [honward] at hon
      exact .inr ⟨report, rfl, route_report (s := r) (by rw [hon])⟩
  · obtain ⟨result, t, hon, hcase⟩ := ingest_routed hq hi hs hfresh hkind later
    rw [hon] at hresult ⊢
    exact (hcase.resolve_left hresult).2 c hc hawaits
  · rw [hway, on_process]
    rcases hon : (onward svc e later).on r with ⟨x | report, u⟩ <;> rw [hon] at hsteady
    · exact hsteady
    · exact trans_of (World.Steady e.kind) hsteady
        (World.steady_of_eq (u.world.settle_frame e.key).2.1)

/-- So it is in the place of an engine that lost the event on its way. -/
theorem World.Regains.retries {w r : World} (hr : w.Regains r) (hi : w.cursors.Indexed)
    (happlied : w.statistics.applied.find? e.key = some counted) (hkind : e.haltsLead = false)
    (hfresh : r.seen.table.find? e.key = none) : w.Retries e r := by
  have hknown := hr.lineage.known
  have hcursors : ∀ key, r.cursors.find? key = w.cursors.find? key :=
    fun key => engagedOn_congr (hr.lasting (.cursor key) not_false)
  exact ⟨hcursors, hknown.inOrder.indexed.awaiting_perm hi hcursors e,
    fun campaign => engagedIn_congr (hr.lasting (.totals campaign) not_false),
    fun σ svc mailer later => Engine.retries_of_counted (s := ⟨r, mailer⟩) hknown.sound
      hknown.inOrder.indexed hfresh (hr.applied _ _ happlied) hkind later⟩

/-- **An event that does not get to all its cursors.** Take any world that engines come to, restarts and
crashes included, an event whose key was not let in before, and any mailer. If there is no report, a time
is out of range, and the event was counted once, unless it was counted before. Whatever the engine does
then, as long as it does not prune what it let in and counted, every event of this key is turned away as a
duplicate and changes nothing, so that the cursors that still wait for the event do so in vain. An engine
that starts from a snapshot takes the event in again: it is no duplicate, it is sent on its way to these
cursors, and it is not counted again. So does an engine that starts from the journal, if the key was not
settled in an earlier delivery that was pruned. -/
theorem World.Lineage.failed_ingest {base : World} {x : Fault} (h : base.Lineage s.world)
    (hfresh : s.world.seen.table.find? e.key = none)
    (hfailed : (Engine.ingest svc e now).on s = (.error x, t)) :
    x = .outOfRange ∧
    (s.world.statistics.applied.find? e.key = none → s.world.CountedOnce e now t.world) ∧
    (s.world.statistics.applied.find? e.key ≠ none → s.world.Steady e.kind t.world) ∧
    ∀ v, t.world.Continues (fun u => u = now ∨
        u = (s.world.statistics.applied.find? e.key).getD now) v →
      v.TurnsAway e.key ∧
      (∀ snap n, snap.Lists v → v.Retries e ((World.empty n).restore snap).1) ∧
      (base.seen.table.find? e.key = none →
        written (journaled s.world.trace) (.settled e.key) = none →
        ∀ n, v.Retries e { base.replayAll (journaled v.trace) with nextId := n }) := by
  obtain ⟨rfl, hkind, hpending, honce, hsteady⟩ :=
    Engine.ingest_failed h.known.sound.versioned hfresh hfailed
  have hperform : ((Operation.ingest e now).perform svc).on s = (.error .outOfRange, t) := by
    show (discard (Engine.ingest svc e now)).on s = _
    rw [Engine.on_discard, hfailed]
    rfl
  refine ⟨rfl, honce, hsteady, fun v hv => ?_⟩
  obtain ⟨hstill, hwritten⟩ := hpending.continues hv
  have ht : base.Lineage t.world := by
    have hnext := World.Lineage.perform svc s.mailer (.ingest e now) h trivial
    rw [hperform] at hnext
    exact hnext
  have hlineage := ht.continues hv
  have hindexed := hlineage.known.inOrder.indexed
  refine ⟨hstill.turnsAway, fun snap n hsnap => ?_, fun hbase hjournal n => ?_⟩
  · exact (hlineage.regains_restored hsnap n).retries hindexed hstill.applied hkind
      (hstill.unseen_restored hlineage hsnap n)
  · have hunwritten : written (journaled t.world.trace) (.settled e.key) = none := by
      have hbefore : s.world.at? (.settled e.key) = none := by
        rw [World.at?, hfresh]
        rfl
      have hafter : (((Operation.ingest e now).perform svc).on s).2.world.at? (.settled e.key) =
          none := by
        rw [hperform]
        exact hpending.at?_settled
      have hsame := (Operation.ingest e now).written_settled svc trivial hbefore hafter
      rw [hperform] at hsame
      exact hsame.trans hjournal
    exact (hlineage.regains_replayed n).retries hindexed hstill.applied hkind
      (hlineage.unseen_replayed hbase (hwritten.trans hunwritten) n)

/-! ## A reply that gets lost -/

/-- A lead that replies has to wait for as many days as can be written. -/
def Document.repliedFarOff : Document where
  nodes := [⟨"replied", .condition ⟨{ replied := true }, .anyOf, ⟨2, .days⟩⟩⟩,
    ⟨"wait", .delay ⟨4294967295, .days⟩⟩, ⟨"won", .goal ⟨.conversion, none⟩⟩]
  edges := [{ id := "a", source := "replied", sourceHandle := some "yes", target := "wait" },
    { id := "b", source := "replied", sourceHandle := some "no", target := "won" },
    { id := "c", source := "wait", target := "won" }]

/-- The run in which a lead waits for a reply in two versions of a flow, of which only the second leads
to a goal in time. -/
def Session.waitingTwice : Session (Nat × List Moment) :=
  [Operation.activate (.ofNat 7) .repliedFarOff .epoch, .enroll (.ofNat 7) .ada .epoch,
    .activate (.ofNat 7) .followUp .epoch, .enroll (.ofNat 7) .ada .epoch].foldl
    (fun s op => op.next .standard s) (.start 0 0)

theorem run_waitingTwice (allowed : Fault → Prop) : Run .standard allowed .waitingTwice :=
  ((((Run.start 0 0).succeed (.activate (.ofNat 7) .repliedFarOff .epoch) rfl
    (by decide +kernel)).succeed (.enroll (.ofNat 7) .ada .epoch) trivial
    (by decide +kernel)).succeed (.activate (.ofNat 7) .followUp .epoch)
    (Option.isNone_iff_eq_none.1 (by decide +kernel)) (by decide +kernel)).succeed
    (.enroll (.ofNat 7) .ada .epoch) trivial (by decide +kernel)

/-- The session after the reply was taken in, and what came of it. -/
def Session.lostReply : Except Fault IngestReport × Session Nat :=
  (Engine.ingest .standard (.ofAda .replied) .epoch).on ⟨Session.waitingTwice.world, 0⟩

/-- The reply is let in and comes upon a time out of range in the first version. In the second version
the lead goes on waiting for it, as the reply is a duplicate when it comes again. A fresh engine takes it
in. -/
theorem World.Lineage.failed_ingest_replied :
    let s : Session Nat := ⟨Session.waitingTwice.world, 0⟩
    let t := Session.lostReply.2
    s.world.seen.table.find? "replied" = none ∧ Session.lostReply.1 = .error .outOfRange ∧
    s.world.CountedOnce (.ofAda .replied) .epoch t.world ∧ t.world.TurnsAway "replied" ∧
    t.world.Retries (.ofAda .replied) ((World.empty 5).restore (t.world.snapshot .secondDay)).1 ∧
    ∃ n, t.world.Retries (.ofAda .replied)
      { (World.empty n).replayAll (journaled t.world.trace) with nextId := 5 } := by
  let s : Session Nat := ⟨Session.waitingTwice.world, 0⟩
  have hfresh : s.world.seen.table.find? (Engagement.ofAda .replied).key = none := by decide +kernel
  have happlied : s.world.statistics.applied.find? "replied" = none := by decide +kernel
  have hfault : Session.lostReply.1 = .error .outOfRange := by decide +kernel
  have hjournal : (written (journaled s.world.trace) (.settled "replied")).isNone = true := by
    decide +kernel
  obtain ⟨n, hn⟩ := (run_waitingTwice fun _ => True).lineage
  have hfailed : Session.lostReply = (.error .outOfRange, Session.lostReply.2) := by
    rw [← hfault]
  obtain ⟨-, honce, -, hlater⟩ := World.Lineage.failed_ingest (s := s) hn hfresh hfailed
  obtain ⟨haway, hsnapshot, hreplayed⟩ := hlater _ .refl
  exact ⟨hfresh, hfault, honce happlied, haway,
    hsnapshot _ 5 (World.lists_snapshot _ .secondDay),
    n, hreplayed rfl (Option.isNone_iff_eq_none.1 hjournal) 5⟩

/-- The lead waits in two versions as the reply comes in. It comes upon a time out of range in the first
one, so that the lead still waits in the second one; but the same reply is then a duplicate, and nothing
changes. -/
theorem Engine.lost_reply_is_duplicate :
    Run .standard (fun _ => False) .waitingTwice ∧
    (Session.waitingTwice.world.cursors.awaiting (.ofAda .replied)).length = 2 ∧
    Session.lostReply.1 = .error .outOfRange ∧
    Session.lostReply.2.world.cursors.awaiting (.ofAda .replied) = [⟨.ofNat 2, "ada"⟩] ∧
    ((Engine.ingest .standard (.ofAda .replied) .epoch).on Session.lostReply.2).1 =
      .ok { key := "replied", duplicate := true } ∧
    ((Engine.ingest .standard (.ofAda .replied) .epoch).on
      Session.lostReply.2).2.world.cursors.awaiting (.ofAda .replied) = [⟨.ofNat 2, "ada"⟩] := by
  refine ⟨run_waitingTwice _, ?_⟩
  decide +kernel

end MailCampaign
