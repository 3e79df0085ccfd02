import MailCampaign.Proofs.Cursor.Calls
import MailCampaign.Proofs.Engine.Fired
import MailCampaign.Proofs.Run.Lineage

/-!
# Due timers get their cursors on

No timer is stale: the timers of a store are those of its cursors, and a cursor with a timer waits. So a
due timer finds its cursor ready, and firing it gets the cursor on. Where no delay is empty the cursor has
no due timer afterwards, so the due timers are fired from the front and none of them comes back.

1. The due keys are those of ready cursors, each once (`World.Sound.exists_ready`,
   `CursorStore.nodup_due`).
2. Firing due timers one after another serves their cursors and leaves the others alone
   (`dispatchEach_serves`), so what is due afterwards are the other timers (`World.Served.dueTimers`).
3. A tick does that with a batch, and ticks at the same instant do it with one batch after another
   (`tick_drains`, `ticks_drains`).
-/

namespace MailCampaign

variable {σ : Type}

/-! ## Due keys -/

namespace CursorStore

variable {s : CursorStore} {now : Instant} {t u : Timer}

theorem TimersExact.key_inj (h : s.TimersExact) (ht : t ∈ s.timers) (hu : u ∈ s.timers)
    (hk : t.key = u.key) : t = u := by
  obtain ⟨c, hc, hct⟩ := (h.mem_iff t).1 ht
  obtain ⟨d, hd, hdu⟩ := (h.mem_iff u).1 hu
  obtain rfl := Option.some.inj (hc.symm.trans (hk ▸ hd))
  exact Option.some.inj (hct.symm.trans hdu)

/-- The cursors of due timers are due, and there is one timer for each. -/
theorem nodup_dueKeys (h : s.Indexed) (now : Instant) : ((s.dueTimers now).map Timer.key).Nodup := by
  rw [dueTimers_eq h.sorted]
  refine List.Nodup.map_on (fun t ht u hu hk => ?_) (h.exact.nodup.filter _)
  exact h.exact.key_inj (List.mem_of_mem_filter ht) (List.mem_of_mem_filter hu) hk

theorem nodup_due (h : s.Indexed) (now : Instant) (limit : Nat) : (s.due now limit).Nodup := by
  rw [due, List.map_take]
  exact (nodup_dueKeys h now).sublist (List.take_sublist _ _)

theorem exists_dueAt_of_due (h : s.Indexed) {limit : Nat} {key : CursorKey}
    (hk : key ∈ s.due now limit) : ∃ c, s.find? key = some c ∧ c.dueAt now = true := by
  obtain ⟨t, ht, rfl⟩ := List.mem_map.1 hk
  obtain ⟨hdue, c, hc, htimer⟩ := (mem_dueTimers h).1 (List.mem_of_mem_take ht)
  obtain ⟨hrun, -, -⟩ := Cursor.timer?_eq_some_iff.1 htimer
  refine ⟨c, hc, ?_⟩
  rw [Cursor.dueAt, hrun]
  exact decide_eq_true hdue

theorem length_due (s : CursorStore) (now : Instant) (limit : Nat) :
    (s.due now limit).length = min limit (s.dueCount now) := by
  rw [due, List.length_map, List.length_take, dueCount]

theorem due_min (s : CursorStore) (now : Instant) (limit : Nat) :
    s.due now (min limit (s.dueCount now)) = s.due now limit := by
  rw [due, due, dueCount, ← List.take_eq_take_min]

end CursorStore

/-- A due key is that of a cursor that waits and is due. -/
theorem World.Sound.exists_ready {w : World} (hw : w.Sound) (h : w.cursors.Indexed) {now : Instant}
    {limit : Nat} {key : CursorKey} (hk : key ∈ w.cursors.due now limit) :
    ∃ c, w.cursors.find? key = some c ∧ c.Ready now .timer := by
  obtain ⟨c, hc, hdue⟩ := CursorStore.exists_dueAt_of_due h hk
  refine ⟨c, hc, (hw key c hc).timed.1 ?_, hdue⟩
  cases hrun : c.nextRun with
  | some t => rfl
  | none =>
    rw [Cursor.dueAt_of_none hrun] at hdue
    cases hdue

/-! ## Served cursors -/

/-- The cursors of some keys were served, and the others were left alone. -/
structure World.Served (now : Instant) (keys : List CursorKey) (w v : World) : Prop where
  flows : v.flows = w.flows
  /-- A served cursor got on and has no timer that is due. -/
  served : ∀ key ∈ keys, ∃ c d, w.cursors.find? key = some c ∧ v.cursors.find? key = some d ∧
    c.Further d ∧ d.dueAt now = false
  others : ∀ key, key ∉ keys → v.cursors.find? key = w.cursors.find? key

namespace World.Served

variable {w v u : World} {now : Instant} {keys keys' : List CursorKey} {key : CursorKey}

theorem nil (now : Instant) (w : World) : w.Served now [] w :=
  ⟨rfl, fun _ h => absurd h List.not_mem_nil, fun _ _ => rfl⟩

theorem append (h : w.Served now keys v) (h' : v.Served now keys' u)
    (hdisjoint : ∀ key ∈ keys, key ∉ keys') : w.Served now (keys ++ keys') u where
  flows := h'.flows.trans h.flows
  served := by
    intro key hk
    by_cases hfirst : key ∈ keys
    · obtain ⟨c, d, hc, hd, hf, hdue⟩ := h.served key hfirst
      exact ⟨c, d, hc, (h'.others key (hdisjoint key hfirst)).trans hd, hf, hdue⟩
    · obtain ⟨c, d, hc, hd, hf, hdue⟩ :=
        h'.served key ((List.mem_append.1 hk).resolve_left hfirst)
      exact ⟨c, d, (h.others key hfirst).symm.trans hc, hd, hf, hdue⟩
  others := by
    intro key hk
    rw [List.mem_append, not_or] at hk
    exact (h'.others key hk.2).trans (h.others key hk.1)

/-- A served cursor is not due again. -/
theorem not_mem_due (h : w.Served now keys v) (hv : v.cursors.Indexed) (hk : key ∈ keys)
    (limit : Nat) : key ∉ v.cursors.due now limit := by
  intro hdue
  obtain ⟨-, d, -, hd, -, hnot⟩ := h.served key hk
  obtain ⟨c, hc, hyes⟩ := CursorStore.exists_dueAt_of_due hv hdue
  obtain rfl := Option.some.inj (hc.symm.trans hd)
  rw [hnot] at hyes
  cases hyes

/-- A timer is due after the first due cursors were served if it is one of the others. -/
theorem mem_dueTimers_iff {k : Nat} (h : w.Served now (w.cursors.due now k) v)
    (hw : w.cursors.Indexed) (hv : v.cursors.Indexed) (t : Timer) :
    t ∈ v.cursors.dueTimers now ↔ t ∈ (w.cursors.dueTimers now).drop k := by
  have hsplit := List.take_append_drop k (w.cursors.dueTimers now)
  have hkeys := CursorStore.nodup_dueKeys hw now
  rw [← hsplit, List.map_append, List.nodup_append] at hkeys
  rw [CursorStore.mem_dueTimers hv]
  constructor
  · rintro ⟨hdue, c, hc, ht⟩
    by_cases hk : t.key ∈ w.cursors.due now k
    · -- The cursor of this timer was served, so it is not due.
      obtain ⟨-, d, -, hd, -, hnot⟩ := h.served _ hk
      obtain rfl := Option.some.inj (hc.symm.trans hd)
      rw [Cursor.dueAt, (Cursor.timer?_eq_some_iff.1 ht).1] at hnot
      exact absurd hdue (of_decide_eq_false hnot)
    · rw [h.others _ hk] at hc
      have ht' : t ∈ w.cursors.dueTimers now :=
        (CursorStore.mem_dueTimers hw).2 ⟨hdue, c, hc, ht⟩
      rw [← hsplit, List.mem_append] at ht'
      exact ht'.resolve_left fun htake => hk (List.mem_map_of_mem htake)
  · intro ht
    have hk : t.key ∉ w.cursors.due now k := fun hk =>
      hkeys.2.2 _ hk _ (List.mem_map_of_mem ht) rfl
    rw [h.others _ hk]
    exact (CursorStore.mem_dueTimers hw).1 (List.mem_of_mem_drop ht)

/-- What is due after the first due cursors were served are the other timers. -/
theorem dueTimers {k : Nat} (h : w.Served now (w.cursors.due now k) v) (hw : w.cursors.Indexed)
    (hv : v.cursors.Indexed) :
    v.cursors.dueTimers now = (w.cursors.dueTimers now).drop k :=
  (CursorStore.sorted_dueTimers hv now).eq_of_mem_iff
    ((CursorStore.sorted_dueTimers hw now).sublist (List.drop_sublist k _))
    (h.mem_dueTimers_iff hw hv)

end World.Served

/-! ## Firing due timers -/

/-- The first due timers of a session fired, once each and in their order. -/
structure Session.Drained (svc : Services σ) (now : Instant) (k : Nat) (s t : Session σ) : Prop where
  fired : ∃ outcomes, (Engine.dispatchEach svc .timer now (s.world.cursors.due now k)).on s =
    (.ok outcomes, t) ∧ ∀ r ∈ outcomes, ∃ o, r = .ok o ∧ o ≠ .ignored
  once : (s.world.cursors.due now k).Nodup
  served : s.world.Served now (s.world.cursors.due now k) t.world
  left : t.world.cursors.dueTimers now = (s.world.cursors.dueTimers now).drop k

namespace Engine

variable {svc : Services σ} {trigger : Trigger} {now : Instant} {s t u : Session σ}
  {keys keys' : List CursorKey} {outcomes outcomes' : List (Except Fault Outcome)} {base : World}

theorem fst_bind_error {α β : Type} {e : Engine σ α} {f : α → Engine σ β} {x : Fault}
    (h : (e.on s).1 = .error x) : ((e >>= f).on s).1 = .error x :=
  congrArg Prod.fst (on_bind_error (Prod.ext h rfl))

theorem on_kept_of_ne {α : Type} {e : Engine σ α} {r : Except Fault α} (he : e.on s = (r, t))
    (hr : r ≠ .error .outOfRange) : (kept e).on s = (.ok r, t) := by
  rw [on_kept, he]
  rcases r with x | a
  · cases x <;> first | rfl | exact absurd rfl hr
  · rfl

/-- A dispatch of some cursors that comes to an end dispatches the first one and then the others. -/
theorem dispatchEach_cons {key : CursorKey}
    (h : (dispatchEach svc trigger now (key :: keys)).on s = (.ok outcomes, t)) :
    ∃ r v others, (kept (dispatch svc key trigger now)).on s = (.ok r, v) ∧
      (dispatchEach svc trigger now keys).on v = (.ok others, t) ∧ outcomes = r :: others := by
  rw [dispatchEach, on_bind] at h
  rcases hone : (kept (dispatch svc key trigger now)).on s with ⟨x | r, v⟩ <;> rw [hone] at h
  · cases (Prod.mk.inj h).1
  dsimp only at h
  rw [on_bind] at h
  rcases hrest : (dispatchEach svc trigger now keys).on v with ⟨x | others, u⟩ <;> rw [hrest] at h
  · cases (Prod.mk.inj h).1
  obtain ⟨hout, rfl⟩ := Prod.mk.inj h
  exact ⟨r, v, others, rfl, hrest, (Except.ok.inj hout).symm⟩

theorem on_dispatchEach_cons {key : CursorKey} {r : Except Fault Outcome}
    (h : (kept (dispatch svc key trigger now)).on s = (.ok r, t)) :
    (dispatchEach svc trigger now (key :: keys)).on s =
      (((dispatchEach svc trigger now keys).on t).1.map (r :: ·),
        ((dispatchEach svc trigger now keys).on t).2) := by
  rw [dispatchEach, on_bind_ok h, on_bind]
  rcases (dispatchEach svc trigger now keys).on t with ⟨x | others, u⟩ <;> rfl

theorem dispatchEach_append (h : (dispatchEach svc trigger now keys).on s = (.ok outcomes, t))
    (h' : (dispatchEach svc trigger now keys').on t = (.ok outcomes', u)) :
    (dispatchEach svc trigger now (keys ++ keys')).on s = (.ok (outcomes ++ outcomes'), u) := by
  induction keys generalizing s outcomes with
  | nil =>
    obtain ⟨hnil, rfl⟩ := Prod.mk.inj h
    obtain rfl := Except.ok.inj hnil
    exact h'
  | cons key rest ih =>
    obtain ⟨r, v, others, hone, hrest, rfl⟩ := dispatchEach_cons h
    rw [List.cons_append, on_dispatchEach_cons hone, ih hrest]
    rfl

theorem length_dispatchEach (h : (dispatchEach svc trigger now keys).on s = (.ok outcomes, t)) :
    outcomes.length = keys.length := by
  induction keys generalizing s outcomes with
  | nil =>
    obtain rfl := Except.ok.inj (Prod.mk.inj h).1
    rfl
  | cons key rest ih =>
    obtain ⟨r, v, others, -, hrest, rfl⟩ := dispatchEach_cons h
    rw [List.length_cons, List.length_cons, ih hrest]

/-- Cursors that are ready are served one after another. -/
theorem dispatchEach_serves (hq : svc.mailer.Quiet) (hs : s.world.Sound)
    (hpatient : s.world.Patient svc.retry) (hkeys : keys.Nodup)
    (hready : ∀ key ∈ keys, ∃ c, s.world.cursors.find? key = some c ∧ c.Ready now .timer)
    (hin : ((dispatchEach svc .timer now keys).on s).1 ≠ .error .outOfRange) :
    ∃ outcomes t, (dispatchEach svc .timer now keys).on s = (.ok outcomes, t) ∧
      (∀ r ∈ outcomes, ∃ o, r = .ok o ∧ o ≠ .ignored) ∧ s.world.Served now keys t.world := by
  induction keys generalizing s with
  | nil => exact ⟨[], s, rfl, List.forall_mem_nil _, .nil now s.world⟩
  | cons key rest ih =>
    obtain ⟨hkey, hrest⟩ := List.nodup_cons.1 hkeys
    obtain ⟨c, hc, hc'⟩ := hready key List.mem_cons_self
    have hfires : (dispatch svc key .timer now).Fires c now True s :=
      dispatch_fires hq hs (fun _ => hpatient) hc hc'
    have honly : (dispatch svc key .timer now).Keeps (Session.Worlds (World.OnlyAt key)) :=
      dispatch_onlyAt hq
    have hkeeps := honly s
    rcases hone : (dispatch svc key .timer now).on s with ⟨r, u⟩
    rw [Fires, hone] at hfires
    rw [hone] at hkeeps
    cases hfires with
    | outOfRange =>
      refine absurd (fst_bind_error ?_) hin
      rw [on_kept, hone]
    | @went o _ d ho hd hf hdue =>
      have hkept := on_kept_of_ne hone fun h => by cases h
      have hsound := ((dispatch_follows key .timer now).trail hone).course.sound hs
      have hfind : u.world.cursors.find? key = some d := CursorStore.key_eq_of_find? hc ▸ hd
      have hone : s.world.Served now [key] u.world := by
        refine ⟨hkeeps.flows, List.forall_mem_singleton.2 ⟨c, d, hc, hfind, hf, hdue trivial⟩, ?_⟩
        exact fun k hk => hkeeps.others k fun e => hk (List.mem_singleton.2 e)
      have hready' : ∀ k ∈ rest, ∃ c, u.world.cursors.find? k = some c ∧ c.Ready now .timer := by
        intro k hk
        rw [hkeeps.others k fun e => hkey (e ▸ hk)]
        exact hready k (List.mem_cons_of_mem _ hk)
      have hin' : ((dispatchEach svc .timer now rest).on u).1 ≠ .error .outOfRange := fun h =>
        hin (by rw [on_dispatchEach_cons hkept, h]; rfl)
      obtain ⟨others, t, hon, hothers, hserved⟩ :=
        ih hsound (hpatient.of_flows hkeeps.flows) hrest hready' hin'
      refine ⟨.ok o :: others, t, ?_, List.forall_mem_cons.2 ⟨⟨o, rfl, ho⟩, hothers⟩, ?_⟩
      · rw [on_dispatchEach_cons hkept, hon]
        rfl
      · exact hone.append hserved (List.forall_mem_singleton.2 hkey)

/-! ## Ticks -/

/-- The report of a tick in which that many timers were due and all of them fired. -/
def TickReport.firing (k : Nat) : TickReport := { due := k, fired := k }

theorem tickReport_fired (h : ∀ r ∈ outcomes, ∃ o, r = .ok o ∧ o ≠ .ignored) :
    tickReport outcomes = .firing outcomes.length := by
  induction outcomes with
  | nil => rfl
  | cons r rest ih =>
    obtain ⟨⟨o, rfl, ho⟩, hrest⟩ := List.forall_mem_cons.1 h
    have hcounts := TickReport.mk.inj (ih hrest)
    cases o with
    | ignored => exact absurd rfl ho
    | _ => simpa [tickReport, TickReport.firing] using hcounts

theorem on_tick (svc : Services σ) (batchSize : UInt64) (now : Instant) (s : Session σ) :
    (tick svc batchSize now).on s = (((dispatchEach svc .timer now
        (s.world.cursors.due now (batch batchSize))).on s).1.map tickReport,
      ((dispatchEach svc .timer now (s.world.cursors.due now (batch batchSize))).on s).2) := by
  unfold tick
  rw [on_bind_ok (on_world s), on_map]

/-- **A tick fires a batch of due timers.** -/
theorem tick_drains {batchSize : UInt64} (h : base.Lineage s.world) (hq : svc.mailer.Quiet)
    (hpatient : s.world.Patient svc.retry)
    (hin : ((tick svc batchSize now).on s).1 ≠ .error .outOfRange) :
    ∃ t, (tick svc batchSize now).on s =
        (.ok (.firing (min (batch batchSize) (s.world.cursors.dueCount now))), t) ∧
      s.Drained svc now (batch batchSize) t ∧ base.Lineage t.world := by
  have hknown := h.known
  have hindexed := hknown.inOrder.indexed
  have hlineage : base.Lineage ((tick svc batchSize now).on s).2.world := by
    have hperform := World.Lineage.perform svc s.mailer (.tick batchSize now) h trivial
    unfold Operation.perform at hperform
    rwa [on_discard] at hperform
  rw [on_tick] at hin hlineage ⊢
  obtain ⟨outcomes, t, hon, hfired, hserved⟩ := dispatchEach_serves hq hknown.sound hpatient
    (CursorStore.nodup_due hindexed now (batch batchSize))
    (fun key hk => hknown.sound.exists_ready hindexed hk) fun hout => hin (by rw [hout]; rfl)
  rw [hon] at hlineage ⊢
  refine ⟨t, ?_, ⟨⟨outcomes, hon, hfired⟩, CursorStore.nodup_due hindexed now _, hserved,
    hserved.dueTimers hindexed hlineage.known.inOrder.indexed⟩, hlineage⟩
  show (Except.ok (tickReport outcomes), t) = _
  rw [tickReport_fired hfired, length_dispatchEach hon, CursorStore.length_due]

/-- The number of batches that it takes for so many timers. -/
def batches (batchSize : UInt64) (timers : Nat) : Nat :=
  (timers + batch batchSize - 1) / batch batchSize

theorem le_batches (batchSize : UInt64) (timers : Nat) :
    timers ≤ batches batchSize timers * batch batchSize := by
  have hpos : 0 < batch batchSize := Nat.le_max_right _ _
  have hlt : timers + batch batchSize - 1 <
      batches batchSize timers * batch batchSize + batch batchSize := Nat.lt_div_mul_add hpos
  omega

/-- Ticks one after another at the same instant. -/
def ticks (svc : Services σ) (batchSize : UInt64) (now : Instant) : Nat → Engine σ (List TickReport)
  | 0 => return []
  | n + 1 => do
    let report ← tick svc batchSize now
    let others ← ticks svc batchSize now n
    return report :: others

end Engine

/-- The first due timers fire, and then the next ones. -/
theorem Session.Drained.trans {svc : Services σ} {now : Instant} {j k : Nat} {s t u : Session σ}
    (h : s.Drained svc now j t) (h' : t.Drained svc now k u) (hs : s.world.cursors.Indexed)
    (ht : t.world.cursors.Indexed) : s.Drained svc now (j + k) u := by
  have hdue : s.world.cursors.due now (j + k) =
      s.world.cursors.due now j ++ t.world.cursors.due now k := by
    rw [CursorStore.due, CursorStore.due, CursorStore.due, h.left, List.take_add, List.map_append]
  obtain ⟨outcomes, hon, hfired⟩ := h.fired
  obtain ⟨outcomes', hon', hfired'⟩ := h'.fired
  refine ⟨⟨outcomes ++ outcomes', hdue ▸ Engine.dispatchEach_append hon hon', fun r hr => ?_⟩,
    CursorStore.nodup_due hs now _, hdue ▸ h.served.append h'.served fun key hk =>
      h.served.not_mem_due ht hk k, ?_⟩
  · exact (List.mem_append.1 hr).elim (hfired r) (hfired' r)
  · rw [h'.left, h.left, List.drop_drop]

namespace Engine

variable {svc : Services σ} {now : Instant} {s : Session σ} {base : World} {batchSize : UInt64}

/-- **Ticks at the same instant fire one batch after another.** -/
theorem ticks_drains (n : Nat) (h : base.Lineage s.world) (hq : svc.mailer.Quiet)
    (hpatient : s.world.Patient svc.retry)
    (hin : ((ticks svc batchSize now n).on s).1 ≠ .error .outOfRange) :
    ∃ t, (ticks svc batchSize now n).on s = (.ok ((List.range n).map fun i =>
        .firing (min (batch batchSize) (s.world.cursors.dueCount now - i * batch batchSize))), t) ∧
      s.Drained svc now (n * batch batchSize) t := by
  induction n generalizing s with
  | zero =>
    refine ⟨s, rfl, ?_⟩
    have hnone : s.world.cursors.due now (0 * batch batchSize) = [] := by
      rw [Nat.zero_mul]
      rfl
    refine ⟨⟨[], by rw [hnone]; rfl, List.forall_mem_nil _⟩, hnone ▸ List.nodup_nil,
      hnone ▸ .nil now s.world, by rw [Nat.zero_mul, List.drop_zero]⟩
  | succ n ih =>
    have hin' : ((tick svc batchSize now).on s).1 ≠ .error .outOfRange := fun hout =>
      hin (fst_bind_error hout)
    obtain ⟨t, htick, hdrained, hlineage⟩ := tick_drains h hq hpatient hin'
    have hrest : ((ticks svc batchSize now n).on t).1 ≠ .error .outOfRange := fun hout => by
      refine hin ?_
      rw [ticks, on_bind_ok htick]
      exact fst_bind_error hout
    obtain ⟨u, hticks, hdrained'⟩ :=
      ih hlineage (hpatient.of_flows hdrained.served.flows) hrest
    refine ⟨u, ?_, ?_⟩
    · rw [ticks, on_bind_ok htick, on_bind_ok hticks, on_pure, List.range_succ_eq_map,
        List.map_cons, List.map_map]
      have hleft : t.world.cursors.dueCount now =
          s.world.cursors.dueCount now - batch batchSize := by
        rw [CursorStore.dueCount, hdrained.left, List.length_drop]
        rfl
      rw [hleft]
      simp only [Function.comp_def, Nat.zero_mul, Nat.sub_zero, Nat.succ_mul, Nat.sub_sub,
        Nat.add_comm]
    · rw [Nat.succ_mul, Nat.add_comm]
      exact hdrained.trans hdrained' h.known.inOrder.indexed hlineage.known.inOrder.indexed

end Engine

/-- Only so many timers fire as there are due timers. -/
theorem Session.Drained.due {svc : Services σ} {now : Instant} {k : Nat} {s t : Session σ}
    (h : s.Drained svc now k t) : s.Drained svc now (min k (s.world.cursors.dueCount now)) t := by
  have hdue := s.world.cursors.due_min now k
  refine ⟨hdue ▸ h.fired, hdue ▸ h.once, hdue ▸ h.served, ?_⟩
  rw [h.left, CursorStore.dueCount]
  rcases Nat.le_total k (s.world.cursors.dueTimers now).length with hle | hle
  · rw [Nat.min_eq_left hle]
  · rw [Nat.min_eq_right hle, List.drop_length, List.drop_of_length_le hle]

/-! ## Any reachable world -/

/-- **Due timers get their cursors on, and ticks use them up.** Take any world that an engine comes to, an
instant, and a mailer that lets nothing happen while it is at work, and let no time be out of range. The
due timers are those of the cursors that are due, in their order. Firing any of them succeeds and is not
ignored. The history of the cursor goes on, now and in every later world, so the same wait never ends
again. If no delay is empty, then a tick fires the first due timers up to the size of a batch, each of
them once, and what is due afterwards are the other timers; so the ticks that it takes for all of them in
batches fire each due timer once, and leave nothing due. -/
theorem World.Lineage.timers_drain {base : World} {svc : Services σ} {s : Session σ} (now : Instant)
    (h : base.Lineage s.world) (hq : svc.mailer.Quiet) :
    (Timer.Sorted (s.world.cursors.dueTimers now) ∧
      ∀ timer, timer ∈ s.world.cursors.dueTimers now ↔ timer.deadline ≤ now ∧
        ∃ c, s.world.cursors.find? timer.key = some c ∧ c.timer? = some timer) ∧
    (∀ limit, ∀ key ∈ s.world.cursors.due now limit,
      ((Engine.dispatch svc key .timer now).on s).1 ≠ .error .outOfRange →
        ∃ o t c d, (Engine.dispatch svc key .timer now).on s = (.ok o, t) ∧ o ≠ .ignored ∧
          s.world.cursors.find? key = some c ∧ t.world.cursors.find? key = some d ∧ c.Further d ∧
          ∀ v, t.world.Course svc.retry Scope.all.mailing v →
            ∃ e, v.cursors.find? key = some e ∧ c.Further e) ∧
    (s.world.Patient svc.retry → ∀ batchSize,
      (((Engine.tick svc batchSize now).on s).1 ≠ .error .outOfRange →
        ∃ t, (Engine.tick svc batchSize now).on s =
            (.ok (.firing (min (Engine.batch batchSize) (s.world.cursors.dueCount now))), t) ∧
          s.Drained svc now (min (Engine.batch batchSize) (s.world.cursors.dueCount now)) t) ∧
      (((Engine.ticks svc batchSize now (Engine.batches batchSize
          (s.world.cursors.dueCount now))).on s).1 ≠ .error .outOfRange →
        ∃ t, (Engine.ticks svc batchSize now (Engine.batches batchSize
            (s.world.cursors.dueCount now))).on s =
              (.ok ((List.range (Engine.batches batchSize (s.world.cursors.dueCount now))).map
                fun i => .firing (min (Engine.batch batchSize)
                  (s.world.cursors.dueCount now - i * Engine.batch batchSize))), t) ∧
          s.Drained svc now (s.world.cursors.dueCount now) t ∧
          t.world.cursors.dueCount now = 0)) := by
  have hknown := h.known
  have hindexed := hknown.inOrder.indexed
  refine ⟨⟨CursorStore.sorted_dueTimers hindexed now, fun timer =>
    CursorStore.mem_dueTimers hindexed⟩, ?_, ?_⟩
  · intro limit key hk hin
    obtain ⟨c, hc, hready⟩ := hknown.sound.exists_ready hindexed hk
    obtain rfl := CursorStore.key_eq_of_find? hc
    have hfires : (Engine.dispatch svc c.key .timer now).Fires c now False s :=
      Engine.dispatch_fires hq hknown.sound False.elim hc hready
    rcases hon : (Engine.dispatch svc c.key .timer now).on s with ⟨r, t⟩
    rw [Engine.Fires, hon] at hfires
    rw [hon] at hin
    cases hfires with
    | outOfRange => exact absurd rfl hin
    | @went o _ d ho hd hf _ =>
      refine ⟨o, t, c, d, rfl, ho, hc, hd, hf, fun v hcourse => ?_⟩
      obtain ⟨e, he, -⟩ := hcourse.stored hd
      exact ⟨e, he, hf.trans_prefix (hcourse.history hd he)⟩
  · intro hpatient batchSize
    refine ⟨fun hin => ?_, fun hin => ?_⟩
    · obtain ⟨t, hon, hdrained, -⟩ := Engine.tick_drains h hq hpatient hin
      exact ⟨t, hon, hdrained.due⟩
    · obtain ⟨t, hon, hdrained⟩ := Engine.ticks_drains _ h hq hpatient hin
      have hall := hdrained.due
      rw [Nat.min_eq_right (Engine.le_batches batchSize _)] at hall
      refine ⟨t, hon, hall, ?_⟩
      rw [CursorStore.dueCount, hall.left, CursorStore.dueCount, List.drop_length, List.length_nil]

/-- Two leads wait for replies in the same flow. -/
def Session.waiting : Session Nat :=
  ((Operation.enroll (.ofNat 7) ⟨"grace", "grace@example.org", .empty⟩ .epoch).perform .plain).on
    ⟨Session.enrolled.world, 1⟩ |>.2

theorem Session.patient_waiting : Session.waiting.world.Patient Services.plain.retry where
  delays := by
    intro id g hg n hn wait hwait
    have hnodes : Session.waiting.world.flows.definitions.map (·.document.nodes) =
        [Document.followUp.nodes] := by decide +kernel
    have hmem : g.definition.document.nodes ∈
        Session.waiting.world.flows.definitions.map (·.document.nodes) :=
      List.mem_map_of_mem (List.mem_map_of_mem (List.mem_map_of_mem ((Table.mem_toList _).2 hg)))
    rw [hnodes, List.mem_singleton] at hmem
    rw [hmem] at hn
    -- No step of this flow is a delay.
    have hnone : ∀ m ∈ Document.followUp.nodes, m.action.name ≠ "delay" := by decide +kernel
    exact absurd (congrArg Action.name hwait) (hnone n hn)
  policy := ⟨by decide, by decide⟩

/-- The waits of the two leads are over on the second day. With batches of one timer it takes two ticks
to fire their timers. -/
theorem World.Lineage.timers_drain_waiting :
    (∃ o t, (Engine.dispatch .plain ⟨.ofNat 0, "ada"⟩ .timer .secondDay).on .waiting = (.ok o, t) ∧
      o ≠ .ignored) ∧
    ∃ t, (Engine.ticks .plain 1 .secondDay 2).on .waiting = (.ok [.firing 1, .firing 1], t) ∧
      t.world.cursors.dueCount .secondDay = 0 := by
  obtain ⟨n, hn⟩ := (run_enrolled fun _ => True).lineage
  have hlineage : (World.empty n).Lineage Session.waiting.world := .perform _ _ _ hn trivial
  have hdue : ⟨.ofNat 0, "ada"⟩ ∈ Session.waiting.world.cursors.due .secondDay 10 := by decide +kernel
  have hcount : Session.waiting.world.cursors.dueCount .secondDay = 2 := by decide +kernel
  have hquiet : Services.plain.mailer.Quiet := quiet_logMailer
  obtain ⟨-, hfires, hticks⟩ := World.Lineage.timers_drain .secondDay hlineage hquiet
  obtain ⟨-, hdrains⟩ := hticks Session.patient_waiting 1
  obtain ⟨o, t, -, -, hon, ho, -⟩ := hfires 10 _ hdue (by decide +kernel)
  rw [hcount] at hdrains
  obtain ⟨u, hon', -, hnone⟩ := hdrains (by decide +kernel)
  exact ⟨⟨o, t, hon, ho⟩, u, hon', hnone⟩

end MailCampaign
