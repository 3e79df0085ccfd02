import MailCampaign.Proofs.Engine.Rounds
import MailCampaign.Proofs.Run.WellFormed

/-!
# No cursor is stranded

A cursor that has just come to its step has no timer, so it would be stranded if it were left there.

1. A dispatch puts its cursor at rest, unless the cursor entered and the trigger was meant for one that
   waits (`dispatch_entering`). It brings no other cursor to a step.
2. An enrollment dispatches the cursor that it adds, and a recovery dispatches every cursor that is
   about to run its step. So after each operation no cursor is (`perform_settles`).
3. A well-formed cursor that runs and does not enter waits and has a timer, and the timers of the store
   are exactly those of its cursors (`parked_of_settled`).
-/

namespace MailCampaign

variable {σ : Type}

namespace World

/-- Only cursors of these keys are about to run their step. -/
def EnteringIn (w : World) (p : CursorKey → Prop) : Prop :=
  ∀ key c, w.cursors.find? key = some c → c.state.entering = true → p key

/-- No cursor is about to run its step. -/
def Settled (w : World) : Prop := w.EnteringIn fun _ => False

/-- Every cursor that still runs waits, and has one entry among the timers, at the time at which it is
due. -/
def Parked (w : World) : Prop :=
  ∀ key c, w.cursors.find? key = some c → c.state.terminal = false →
    c.state.waiting = true ∧ ∃ due, c.nextRun = some due ∧
      w.cursors.timers.filter (fun t => decide (t.key = key)) = [⟨due, c.id, key⟩]

variable {w v : World} {p q : CursorKey → Prop}

theorem EnteringIn.mono (h : w.EnteringIn p) (hpq : ∀ key, p key → q key) : w.EnteringIn q :=
  fun key c hc he => hpq key (h key c hc he)

/-- Along a course only cursors in its scope come to a step. -/
theorem EnteringIn.course {policy : RetryPolicy} {scope : Scope} (h : w.EnteringIn p)
    (hv : w.Course policy scope v) : v.EnteringIn fun key => scope.turns key ∨ p key := by
  intro key d hd he
  by_cases hk : scope.turns key
  · exact .inl hk
  · obtain ⟨c, hc, ht | heq⟩ := hv.found hk hd
    · rw [CursorState.entering_of_terminal ht] at he
      cases he
    · rw [heq] at he
      exact .inr (h key c hc he)

/-- Along an idle course no cursor comes to a step. -/
theorem Settled.course {policy : RetryPolicy} (h : w.Settled)
    (hv : w.Course policy Scope.idle.mailing v) : v.Settled :=
  (EnteringIn.course h hv).mono fun _ hk => hk.elim id id

theorem settled_empty (n : Nat) : (empty n).Settled := fun _ _ hc => nomatch hc

/-- Where no cursor is about to run its step, all that run are parked. -/
theorem parked_of_settled (hw : w.Sound) (ht : w.cursors.TimersExact) (hs : w.Settled) :
    w.Parked := by
  intro key c hc hrun
  have hwait : c.state.waiting = true :=
    (CursorState.entering_or_waiting hrun).resolve_left fun he => hs key c hc he
  obtain ⟨due, hdue⟩ := Option.isSome_iff_exists.1 ((hw key c hc).timed.2 hwait)
  refine ⟨hwait, due, hdue, ?_⟩
  have htimer : c.timer? = some ⟨due, c.id, key⟩ :=
    Cursor.timer?_eq_some_iff.2 ⟨hdue, rfl, (CursorStore.key_eq_of_find? hc).symm⟩
  rw [ht.entries_of_find? hc, htimer]
  rfl

end World

namespace Session.Trail

variable {svc : Services σ} {scope : Scope} {s t : Session σ}

theorem sound (h : s.Trail svc scope t) (hs : s.world.Sound) : t.world.Sound := h.course.sound hs

end Session.Trail

namespace Engine

variable {svc : Services σ} {key : CursorKey} {trigger : Trigger} {now : Instant}
  {p : CursorKey → Prop} {s t : Session σ} {α β : Type}

/-! ## Dispatch -/

/-- A dispatch puts its cursor at rest, if the trigger is meant for one that enters, and brings no
other cursor to a step. -/
theorem dispatch_entering {r : Except Fault Outcome} (hs : s.world.Sound)
    (hp : s.world.EnteringIn p) (hon : (dispatch svc key trigger now).on s = (r, t))
    (hr : r ≠ .error .outOfRange) :
    t.world.EnteringIn fun k => p k ∧ (k = key → trigger.cause ≠ .enter) := by
  have htrail : s.Trail svc (.one key) t := (dispatch_follows key trigger now).trail hon
  intro k d hd he
  by_cases hk : k = key
  · subst hk
    cases hc : s.world.cursors.find? k with
    | none =>
      -- The dispatch changed nothing, so the cursor cannot be there now.
      rw [dispatch_none hc] at hon
      rw [← (Prod.mk.inj hon).2, hc] at hd
      cases hd
    | some c =>
      obtain ⟨g, hg⟩ := hs.version hc
      obtain ⟨_, r', t', _, hon', _, _, _, hl⟩ := dispatch_rounds trigger hc hg
      obtain ⟨rfl, rfl⟩ := Prod.mk.inj (hon.symm.trans hon')
      obtain ⟨hcause, hentering⟩ := hl.rested hr d hd he
      exact ⟨hp k c hc hentering, fun _ => hcause⟩
  · rcases hp.course htrail.course k d hd he with hone | hpk
    · exact absurd hone hk
    · exact ⟨hpk, fun e => absurd e hk⟩

/-- Dispatching cursors one after another puts each of them at rest in the same way. -/
theorem dispatchEach_entering {keys : List CursorKey}
    {r : Except Fault (List (Except Fault Outcome))} (hs : s.world.Sound) (hp : s.world.EnteringIn p)
    (hon : (dispatchEach svc trigger now keys).on s = (r, t)) (hr : r ≠ .error .outOfRange) :
    t.world.EnteringIn fun k => p k ∧ (k ∈ keys → trigger.cause ≠ .enter) := by
  induction keys generalizing s t p r with
  | nil =>
    obtain ⟨-, rfl⟩ := Prod.mk.inj hon
    exact hp.mono fun k hk => ⟨hk, fun h => absurd h List.not_mem_nil⟩
  | cons key rest ih =>
    rcases hone : (dispatch svc key trigger now).on s with ⟨r', u⟩
    have hkept := on_kept (dispatch svc key trigger now) s
    rw [hone] at hkept
    have hu : u.world.Sound := ((dispatch_follows key trigger now).trail hone).sound hs
    by_cases hr' : r' = .error .outOfRange
    · subst hr'
      rw [dispatchEach, on_bind_error hkept] at hon
      exact absurd (Prod.mk.inj hon).1.symm hr
    · have hgoes : (kept (dispatch svc key trigger now)).on s = (.ok r', u) := by
        rcases r' with x | o
        · cases x <;> first | exact hkept | exact absurd rfl hr'
        · exact hkept
      rw [dispatchEach, on_bind_ok hgoes, on_bind] at hon
      rcases hothers : (dispatchEach svc trigger now rest).on u with ⟨r'', v⟩
      rw [hothers] at hon
      have hrest : v.world.EnteringIn fun k =>
          (p k ∧ (k = key → trigger.cause ≠ .enter)) ∧ (k ∈ rest → trigger.cause ≠ .enter) := by
        refine ih hu (dispatch_entering hs hp hone hr') hothers ?_
        rintro rfl
        exact hr (Prod.mk.inj hon).1.symm
      have hvt : v = t := by
        rcases r'' with x | others
        · exact (Prod.mk.inj hon).2
        · exact (Prod.mk.inj hon).2
      rw [← hvt]
      refine hrest.mono fun k ⟨⟨hpk, hkey⟩, hmem⟩ => ⟨hpk, fun hk => ?_⟩
      exact (List.mem_cons.1 hk).elim hkey hmem

/-! ## Operations that leave no cursor behind -/

/-- An operation that brings no cursor to a step and leaves it there. -/
def Settles (e : Engine σ α) : Prop :=
  ∀ (s t : Session σ) (r : Except Fault α), s.world.Sound → s.world.Settled → e.on s = (r, t) →
    r ≠ .error .outOfRange → t.world.Settled

namespace Settles

theorem pure (a : α) : (pure a : Engine σ α).Settles := by
  intro s t r _ hset hon _
  rw [← (Prod.mk.inj hon).2]
  exact hset

/-- A change in which no cursor takes a turn. -/
theorem lift {c : Change α} (policy : RetryPolicy) (hc : c.Follows policy .idle) :
    (liftM c : Engine σ α).Settles := by
  intro s t r _ hset hon _
  rw [on_lift] at hon
  rw [← (Prod.mk.inj hon).2]
  exact hset.course ((hc s.world).mono Scope.idle.within_mailing)

theorem bind {e : Engine σ α} {f : α → Engine σ β} (he : e.Settles) (hall : e.Follows svc .all)
    (hf : ∀ a, (f a).Settles) : (e >>= f).Settles := by
  intro s t r hs hset hon hr
  rw [on_bind] at hon
  rcases hone : e.on s with ⟨x | a, u⟩ <;> rw [hone] at hon
  · obtain ⟨rfl, rfl⟩ := Prod.mk.inj hon
    refine he s u _ hs hset hone fun hx => hr ?_
    rw [Except.error.inj hx]
  · exact hf a u t r ((hall.trail hone).sound hs) (he s u _ hs hset hone nofun) hon hr

theorem map {e : Engine σ α} (f : α → β) (he : e.Settles) : (f <$> e).Settles := by
  intro s t r hs hset hon hr
  rw [on_map] at hon
  obtain ⟨rfl, rfl⟩ := Prod.mk.inj hon
  refine he s (e.on s).2 (e.on s).1 hs hset rfl fun hx => hr ?_
  rw [hx]
  rfl

theorem discard {e : Engine σ α} (he : e.Settles) : (discard e).Settles := he.map _

theorem world {f : World → Engine σ α} (hf : ∀ w, (f w).Settles) :
    (Engine.world >>= f).Settles := by
  intro s t r hs hset hon hr
  rw [on_bind_ok (on_world s)] at hon
  exact hf s.world s t r hs hset hon hr

end Settles

theorem dispatch_settles (svc : Services σ) (key : CursorKey) (trigger : Trigger) (now : Instant) :
    (dispatch svc key trigger now).Settles := fun _ _ _ hs hset hon hr =>
  (dispatch_entering hs hset hon hr).mono fun _ h => h.1

theorem dispatchEach_settles (svc : Services σ) (trigger : Trigger) (now : Instant)
    (keys : List CursorKey) : (dispatchEach svc trigger now keys).Settles :=
  fun _ _ _ hs hset hon hr => (dispatchEach_entering hs hset hon hr).mono fun _ h => h.1

/-- An enrollment brings one cursor to a step, and dispatches that one. -/
theorem enroll_settles (svc : Services σ) (campaign : Uuid) (lead : Lead) (now : Instant) :
    (enroll svc campaign lead now).Settles := by
  intro s t r hs hset hon hr
  unfold enroll at hon
  rcases addLead_on svc.retry campaign lead now s.world with
    ⟨x, -, hadd⟩ | ⟨key, c, g, v, hadd, hcourse, -⟩
  · have hlift : (liftM (addLead campaign lead now) : Engine σ CursorKey).on s = (.error x, s) := by
      rw [on_lift, hadd]
    rw [on_bind_error hlift] at hon
    rw [← (Prod.mk.inj hon).2]
    exact hset
  · have hlift : (liftM (addLead campaign lead now) : Engine σ CursorKey).on s =
        (.ok key, { s with world := v }) := by
      rw [on_lift, hadd]
    rw [on_bind_ok hlift, on_bind, on_discard] at hon
    have hadded : v.EnteringIn fun k => k = key := (World.EnteringIn.course hset hcourse).mono
      fun k hk => hk.elim id False.elim
    have hv : v.Sound := hcourse.sound hs
    rcases hone : (dispatch svc key .enter now).on { s with world := v } with ⟨x | o, u⟩ <;>
      rw [hone] at hon
    · obtain ⟨rfl, rfl⟩ := Prod.mk.inj hon
      refine (dispatch_entering hv hadded hone fun hx => hr ?_).mono fun k hk => hk.2 hk.1 rfl
      rw [Except.error.inj hx]
    · have hu : u.world.Settled :=
        (dispatch_entering hv hadded hone nofun).mono fun k hk => hk.2 hk.1 rfl
      have husound : u.world.Sound := ((dispatch_follows key .enter now).trail hone).sound hv
      exact Settles.lift svc.retry (cursor_follows key) u t r husound hu hon hr

theorem routeTo_settles (svc : Services σ) (e : Engagement) (now : Instant)
    (keys : List CursorKey) : (routeTo svc e now keys).Settles := by
  induction keys with
  | nil => exact .pure _
  | cons key rest ih =>
    have hone : (dispatch svc key (.event e) now).Follows svc .all :=
      (dispatch_follows key (.event e) now).mono (Scope.one_within_all key)
    exact (dispatch_settles svc key (.event e) now).bind hone fun _ =>
      ih.bind (routeTo_follows e now rest) fun _ => .pure _

theorem route_settles (svc : Services σ) (e : Engagement) (now : Instant) :
    (route svc e now).Settles := by
  refine .world fun w => ?_
  split
  · exact .pure _
  · exact (routeTo_settles svc e now _).bind (routeTo_follows e now _) fun _ => .pure _

theorem ingest_settles (svc : Services σ) (e : Engagement) (now : Instant) :
    (ingest svc e now).Settles := by
  unfold ingest
  split
  · exact .lift svc.retry (Change.ingestHalting_follows e now)
  · have hreceive : ∀ scope, (Change.receive e now).Follows svc.retry scope :=
      fun scope => Change.receive_follows e now
    have hcount : ∀ scope, (Change.apply (·.count e none now)).Follows svc.retry scope :=
      fun scope => .apply fun w => World.count_course w e none now
    have hsettle : ∀ scope, (Change.settle e.key).Follows svc.retry scope :=
      fun scope => Change.settle_follows e.key
    refine (Settles.lift svc.retry (hreceive _)).bind (.lift (hreceive _)) fun first => ?_
    cases first with
    | false => exact .pure _
    | true =>
      exact (Settles.lift svc.retry (hcount _)).bind (.lift (hcount _)) fun _ =>
        (route_settles svc e now).bind (route_follows e now) fun _ =>
          (Settles.lift svc.retry (hsettle _)).bind (.lift (hsettle _)) fun _ => .pure _

theorem tick_settles (svc : Services σ) (batchSize : UInt64) (now : Instant) :
    (tick svc batchSize now).Settles :=
  .world fun _ => (dispatchEach_settles svc .timer now _).map _

/-- A recovery dispatches every cursor that is about to run its step, so none is afterwards. -/
theorem recover_settled {r : Except Fault Nat} (hs : s.world.Sound)
    (hon : (recover svc now).on s = (r, t)) (hr : r ≠ .error .outOfRange) : t.world.Settled := by
  have hin : s.world.EnteringIn fun k => k ∈ s.world.cursors.inStates [.pending, .active] := by
    intro k c hc he
    refine CursorStore.mem_keysWhere.2 ⟨c, hc, ?_⟩
    cases hstate : c.state <;> rw [hstate] at he <;> first | rfl | cases he
  unfold recover at hon
  rw [on_bind_ok (on_world s), on_bind, on_discard] at hon
  rcases heach : (dispatchEach svc .enter now (s.world.cursors.inStates [.pending, .active])).on s
    with ⟨x | outcomes, u⟩ <;> rw [heach] at hon
  · obtain ⟨rfl, rfl⟩ := Prod.mk.inj hon
    refine (dispatchEach_entering hs hin heach fun hx => hr ?_).mono fun k hk => hk.2 hk.1 rfl
    rw [Except.error.inj hx]
  · have ht : u = t := (Prod.mk.inj hon).2
    rw [← ht]
    exact (dispatchEach_entering hs hin heach nofun).mono fun k hk => hk.2 hk.1 rfl

end Engine

/-- After each operation no cursor is about to run its step. -/
theorem Operation.perform_settles {svc : Services σ} (op : Operation) {s t : Session σ}
    {r : Except Fault PUnit} (hfresh : op.Fresh s.world) (hs : s.world.Sound)
    (hset : s.world.Settled) (hon : (op.perform svc).on s = (r, t)) (hr : r ≠ .error .outOfRange) :
    t.world.Settled := by
  have of_settles : (op.perform svc).Settles → t.world.Settled :=
    fun h => h s t r hs hset hon hr
  cases op with
  | activate campaign document now =>
    unfold perform at hon
    rw [Engine.on_lift, Change.on_discard] at hon
    rw [← (Prod.mk.inj hon).2]
    exact hset.course (Change.activate_course svc.retry _ campaign document now hfresh)
  | enroll campaign lead now =>
    exact of_settles (Engine.enroll_settles svc campaign lead now).discard
  | ingest e now => exact of_settles (Engine.ingest_settles svc e now).discard
  | dispatch key trigger now =>
    exact of_settles (Engine.dispatch_settles svc key trigger now).discard
  | tick batchSize now => exact of_settles (Engine.tick_settles svc batchSize now).discard
  | pause campaign now =>
    exact of_settles (.lift svc.retry (Change.pause_follows campaign now).discard)
  | cancel campaign now =>
    exact of_settles (.lift svc.retry (Change.cancelCampaign_follows campaign now).discard)
  | resume campaign => exact of_settles (.lift svc.retry (Change.resume_follows campaign))
  | prune ttlHours now =>
    exact of_settles (.lift svc.retry (Change.prune_follows ttlHours now).discard)
  | recover now =>
    refine of_settles (Engine.Settles.discard ?_)
    exact fun _ _ _ hs _ hon hr => Engine.recover_settled hs hon hr

/-! ## Runs -/

namespace Run

variable {svc : Services σ} {s : Session (σ × List Moment)}

theorem timersExact {allowed : Fault → Prop} (h : Run svc allowed s) :
    s.world.cursors.TimersExact := by
  refine (h.always (P := fun w => w.cursors.TimersExact) ?_ fun u v hshift => ?_).1
  · exact fun n => CursorStore.timersExact_empty
  · exact hshift.timersExact

theorem settled (h : Run svc (· ≠ .outOfRange) s) : s.world.Settled := by
  induction h with
  | start firstId mailer => exact World.settled_empty firstId
  | @step s op hrun hfresh hfault ih =>
    have ht : ((op.perform svc.recording).on s).2.world.Settled := by
      refine op.perform_settles hfresh hrun.chronicled.1.1 ih rfl fun hx => ?_
      exact hfault .outOfRange hx rfl
    exact ht

/-- **No cursor is stranded.** Between the operations of a run in which no time was out of range, every
cursor that still runs waits and has its timer. So it is after any part of the journal from its start
is loaded into an empty world and the interrupted steps are run. -/
theorem always_parked (h : Run svc (· ≠ .outOfRange) s) :
    s.world.Parked ∧
      ∀ (n : Nat) (l : List Entry), l <+: journaled s.world.trace →
        ∀ {τ : Type} (svc' : Services τ) (mailer : τ) (now : Instant) (r : Except Fault Nat)
          (t : Session τ),
          (Engine.recover svc' now).on ⟨(World.empty n).replayAll l, mailer⟩ = (r, t) →
            r ≠ .error .outOfRange → t.world.Parked := by
  refine ⟨World.parked_of_settled h.chronicled.1.1 h.timersExact h.settled, ?_⟩
  intro n l hl τ svc' mailer now r t hon hr
  have hsound : ((World.empty n).replayAll l).Sound := (h.chronicled.1.2 n).sound l hl
  have htrail : Session.Trail svc' .all ⟨(World.empty n).replayAll l, mailer⟩ t :=
    (Engine.recover_follows now).trail hon
  have htimers : t.world.cursors.TimersExact := htrail.course.timersExact
    (World.timersExact_replayAll CursorStore.timersExact_empty l)
  exact World.parked_of_settled (htrail.sound hsound) htimers (Engine.recover_settled hsound hon hr)

/-- A cursor that waits at a condition, and the same one left before its first mail by a crash. -/
theorem always_parked_enrolled :
    Session.enrolled.world.Parked ∧ ∃ t : Session Nat,
      (Engine.recover .plain .epoch).on
        ⟨(World.empty 0).replayAll ((journaled Session.enrolled.world.trace).take 3), 0⟩ =
          (.ok 1, t) ∧ t.world.Parked := by
  have h := always_parked (run_enrolled (· ≠ .outOfRange))
  have hok : ((Engine.recover .plain .epoch).on
      ⟨(World.empty 0).replayAll ((journaled Session.enrolled.world.trace).take 3), 0⟩).1 =
        .ok 1 := by decide +kernel
  exact ⟨h.1, _, Prod.ext hok rfl, h.2 0 _ (List.take_prefix 3 _) .plain 0 .epoch (.ok 1) _
    (Prod.ext hok rfl) nofun⟩

end Run

end MailCampaign
