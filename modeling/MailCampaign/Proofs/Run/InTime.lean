import MailCampaign.Proofs.Engine.InTime
import MailCampaign.Proofs.Run.Parked
import MailCampaign.Proofs.Run.Restart

/-!
# Runs in the range of time

The rules for flows put no bound on waiting times. A flow that waits for four thousand million days
is activated, and as a lead enters it the end of the wait is out of range. By then the lead is
enrolled: its cursor is left at the step, and every later recovery ends in the same way
(`far_off_sticks`).

1. With bounded waiting times and the settings by default no operation up to the end of the year
   2200 comes upon a time out of range (`Operation.perform_inTime`), so none does along a whole run.
2. So no cursor is left in the middle of a step, as in every run without a time out of range.
3. The flows of every part of the journal are flows of the run, so a recovery from it ends well,
   too, and as it leaves no cursor about to run its step, another one finds nothing to do.
-/

namespace MailCampaign

variable {σ : Type} {svc : Services σ} {s t : Session (σ × List Moment)}

/-! ## Operations -/

/-- An operation up to the end of the year 2200 that activates no flow with a longer waiting time
than that allows, and keeps keys for as long as the settings by default say. -/
def Operation.Timely : Operation → Prop
  | activate _ document now => document.Bounded ∧ now.Near
  | enroll _ _ now | ingest _ now | dispatch _ _ now | tick _ now => now.Near
  | pause _ now | cancel _ now | recover now => now.Near
  | resume _ => True
  | prune ttlHours now => ttlHours = ({} : FlowSettings).idempotencyTtlHours ∧ now.Near

instance : (op : Operation) → Decidable op.Timely
  | .activate _ document now => inferInstanceAs (Decidable (document.Bounded ∧ now.Near))
  | .enroll _ _ now | .ingest _ now | .dispatch _ _ now | .tick _ now =>
    inferInstanceAs (Decidable now.Near)
  | .pause _ now | .cancel _ now | .recover now => inferInstanceAs (Decidable now.Near)
  | .resume _ => inferInstanceAs (Decidable True)
  | .prune ttlHours now => inferInstanceAs (Decidable (ttlHours = _ ∧ now.Near))

theorem Operation.perform_inTime {τ : Type} {svc : Services τ} (hretry : svc.retry.Bounded)
    {op : Operation} (hop : op.Timely) : (op.perform svc).InTime := by
  cases op with
  | activate campaign document now => exact .lift (Change.activate_inTime hop.1).discard
  | enroll campaign lead now => exact (Engine.enroll_inTime hretry hop).discard
  | ingest e now => exact (Engine.ingest_inTime hretry hop).discard
  | dispatch key trigger now => exact (Engine.dispatch_inTime hretry hop key trigger).discard
  | tick batchSize now => exact (Engine.tick_inTime hretry hop batchSize).discard
  | pause campaign now => exact .lift Change.pause_inTime.discard
  | cancel campaign now => exact .lift Change.cancelCampaign_inTime.discard
  | resume campaign => exact .lift Change.resume_inTime
  | prune ttlHours now =>
    obtain ⟨rfl, hnow⟩ := hop
    exact .lift (Change.prune_inTime hnow).discard
  | recover now => exact (Engine.recover_inTime hretry hop).discard

/-! ## Runs -/

/-- The sessions that runs of such operations come to. -/
inductive TimelyRun (svc : Services σ) : Session (σ × List Moment) → Prop
  | start (firstId : Nat) (mailer : σ) : TimelyRun svc (.start firstId mailer)
  | step {s : Session (σ × List Moment)} (op : Operation) : TimelyRun svc s → op.Fresh s.world →
      op.Timely → TimelyRun svc (op.next svc s)

namespace TimelyRun

theorem bounded (h : TimelyRun svc s) (hretry : svc.retry.Bounded) : s.world.Bounded := by
  induction h with
  | start firstId mailer => exact fun _ _ hg => nomatch hg
  | @step s op _ _ hop ih =>
    have hrecording : svc.recording.retry.Bounded := hretry
    have hin : (op.perform svc.recording).InTime := Operation.perform_inTime hrecording hop
    exact (hin s ih).2

/-- Along such a run no time is out of range. -/
theorem run (h : TimelyRun svc s) (hretry : svc.retry.Bounded) : Run svc (· ≠ .outOfRange) s := by
  induction h with
  | start firstId mailer => exact .start firstId mailer
  | @step s op hs hfresh hop ih =>
    refine ih.step op hfresh fun x hx hout => ?_
    have hrecording : svc.recording.retry.Bounded := hretry
    have hin : (op.perform svc.recording).InTime := Operation.perform_inTime hrecording hop
    exact (hin s (hs.bounded hretry)).1 (by rw [hx, hout])

end TimelyRun

/-- Entries whose versions are bounded keep a world bounded. -/
theorem World.Bounded.replayAll {w : World} (hw : w.Bounded) {l : List Entry}
    (hl : ∀ d, .flow d ∈ l → ∃ g : Graph, g.definition = d ∧ d.document.Bounded) :
    (w.replayAll l).Bounded := by
  induction l generalizing w with
  | nil => exact hw
  | cons entry rest ih =>
    refine ih ?_ fun d hd => hl d (List.mem_cons_of_mem _ hd)
    cases entry with
    | flow d =>
      obtain ⟨g, rfl, hbounded⟩ := hl d List.mem_cons_self
      intro id g' hg'
      have hfind := w.flows.find?_accept g id
      split at hfind
      · obtain rfl := Option.some.inj (hfind.symm.trans hg')
        exact hbounded
      · exact hw id g' (hfind.symm.trans hg')
    | cursor c =>
      unfold replay
      dsimp only
      split
      · exact hw
      · exact hw
    | _ => exact hw

namespace Engine

variable {τ : Type} {svc : Services τ} {now : Instant} {s t : Session τ}

/-- Nothing but a time out of range keeps a recovery from its end. -/
theorem recover_ok {r : Except Fault Nat} (hon : (recover svc now).on s = (r, t))
    (hr : r ≠ .error .outOfRange) :
    r = .ok (s.world.cursors.inStates [.pending, .active]).length := by
  unfold recover at hon
  rw [on_bind_ok (on_world s), on_bind, on_discard] at hon
  rcases hall : (dispatchEach svc .enter now (s.world.cursors.inStates [.pending, .active])).on s
    with ⟨x | outcomes, u⟩ <;> rw [hall] at hon
  · obtain rfl := dispatchEach_error (by rw [hall])
    exact absurd (Prod.mk.inj hon).1.symm hr
  · exact (Prod.mk.inj hon).1.symm

/-- Where no cursor is about to run its step, a recovery does nothing. -/
theorem recover_idle (hs : s.world.Settled) : (recover svc now).on s = (.ok 0, s) := by
  have hkeys : s.world.cursors.inStates [.pending, .active] = [] := by
    refine List.eq_nil_iff_forall_not_mem.2 fun key hkey => ?_
    obtain ⟨c, hc, hstate⟩ := CursorStore.mem_keysWhere.1 hkey
    refine hs key c hc ?_
    cases hc' : c.state <;> rw [hc'] at hstate <;> first | rfl | cases hstate
  unfold recover
  rw [on_bind_ok (on_world s), hkeys]
  rfl

end Engine

namespace TimelyRun

/-- **No flow with bounded waiting times makes the engine fail.** Let all waiting times end in range
from any instant up to the end of the year 2200, and let the settings be those by default. Then,
whatever the mailer and the renderer answer, no operation up to that time comes upon a time out of
range; every cursor that still runs waits, with its timer; and from any part of the journal from its
start a recovery gives a result, leaves no cursor in the middle of a step, and may be run again at
any time. -/
theorem never_out_of_range (h : TimelyRun svc s)
    (hretry : RetryPolicy.ofSettings? {} = some svc.retry) :
    (∀ op : Operation, op.Timely →
      ((op.perform svc.recording).on s).1 ≠ .error .outOfRange) ∧
    s.world.Parked ∧
    ∀ (n : Nat) (l : List Entry), l <+: journaled s.world.trace →
      ∀ {τ : Type} (svc' : Services τ) (mailer : τ) (now : Instant),
        RetryPolicy.ofSettings? {} = some svc'.retry → now.Near →
          ∃ k t, (Engine.recover svc' now).on ⟨(World.empty n).replayAll l, mailer⟩ = (.ok k, t) ∧
            t.world.Parked ∧ ∀ later, (Engine.recover svc' later).on t = (.ok 0, t) := by
  have hbounded := RetryPolicy.bounded_default hretry
  have hrun := h.run hbounded
  refine ⟨fun op hop => ?_, hrun.always_parked.1, fun n l hl τ svc' mailer now hretry' hnow => ?_⟩
  · have hrecording : svc.recording.retry.Bounded := hbounded
    have hin : (op.perform svc.recording).InTime := Operation.perform_inTime hrecording hop
    exact (hin s (h.bounded hbounded)).1
  have hreplayed : ((World.empty n).replayAll l).Bounded := by
    refine World.Bounded.replayAll (fun _ _ hg => by cases hg) fun d hd => ?_
    obtain ⟨g, rfl, hg⟩ := hrun.hasVersion d (hl.subset hd)
    exact ⟨g, rfl, h.bounded hbounded _ g hg⟩
  rcases hon : (Engine.recover svc' now).on ⟨(World.empty n).replayAll l, mailer⟩ with ⟨r, t⟩
  have hr : r ≠ .error .outOfRange := by
    have hin := (Engine.recover_inTime (RetryPolicy.bounded_default hretry') hnow
      ⟨(World.empty n).replayAll l, mailer⟩ hreplayed).1
    rwa [hon] at hin
  obtain rfl := Engine.recover_ok hon hr
  have hsound : ((World.empty n).replayAll l).Sound := (hrun.chronicled.1.2 n).sound l hl
  exact ⟨_, t, rfl, hrun.always_parked.2 n l hl svc' mailer now _ t hon hr,
    fun later => Engine.recover_idle (Engine.recover_settled hsound hon hr)⟩

end TimelyRun

/-- An engine that delivers nothing, with the settings by default. -/
def Services.standard : Services Nat :=
  { Services.plain with retry := { Services.plain.retry with limit := 5 } }

/-- A lead enters a flow with a wait of two days. -/
def Session.prompt : Session (Nat × List Moment) :=
  (Operation.enroll (.ofNat 7) .ada .epoch).next .standard
    ((Operation.activate (.ofNat 7) .followUp .epoch).next .standard (.start 0 0))

theorem timelyRun_prompt : TimelyRun .standard .prompt :=
  ((TimelyRun.start 0 0).step (.activate (.ofNat 7) .followUp .epoch) rfl (by decide +kernel)).step
    (.enroll (.ofNat 7) .ada .epoch) trivial (by decide +kernel)

namespace TimelyRun

theorem never_out_of_range_prompt :
    RetryPolicy.ofSettings? {} = some Services.standard.retry ∧
    (∀ op : Operation, op.Timely →
      ((op.perform Services.standard.recording).on .prompt).1 ≠ .error .outOfRange) ∧
    Session.prompt.world.Parked ∧
    ∃ k t, (Engine.recover .standard .epoch).on
        ⟨(World.empty 0).replayAll ((journaled Session.prompt.world.trace).take 3), 0⟩ =
          (.ok k, t) ∧
      t.world.Parked ∧ ∀ later, (Engine.recover .standard later).on t = (.ok 0, t) := by
  have hretry : RetryPolicy.ofSettings? {} = some Services.standard.retry := rfl
  have h := never_out_of_range timelyRun_prompt hretry
  exact ⟨hretry, h.1, h.2.1, h.2.2 0 _ (List.take_prefix 3 _) .standard 0 .epoch hretry
    (by decide +kernel)⟩

end TimelyRun

/-! ## A wait out of range -/

/-- A wait for as many days as can be written, then a goal. -/
def Document.farOff : Document where
  nodes := [⟨"wait", .delay ⟨4294967295, .days⟩⟩, ⟨"won", .goal ⟨.conversion, none⟩⟩]
  edges := [{ id := "a", source := "wait", target := "won" }]

/-- The run in which that flow is activated. -/
def Session.farOff : Session (Nat × List Moment) :=
  (Operation.activate (.ofNat 7) .farOff .epoch).next .standard (.start 0 0)

/-- A lead enters it. -/
def Session.stuck : Session (Nat × List Moment) :=
  (Operation.enroll (.ofNat 7) .ada .epoch).next .standard .farOff

/-- The flow of a wait that ends out of range keeps the rules and is activated. The lead that enters
it is left at the step of that wait, and a recovery ends in the same fault and leaves it there. -/
theorem Engine.far_off_sticks :
    Document.farOff.validate = .ok ⟨"wait", .delay ⟨4294967295, .days⟩⟩ ∧
    ((Change.activate (.ofNat 7) .farOff .epoch).on (World.empty 0)).1.toOption.map Graph.version =
      some 1 ∧
    (((Operation.enroll (.ofNat 7) .ada .epoch).perform (Services.recording .standard)).on
      .farOff).1 = .error .outOfRange ∧
    (Session.stuck.world.cursors.find? ⟨.ofNat 0, "ada"⟩).map Cursor.state = some .pending ∧
    (((Operation.recover .epoch).perform (Services.recording .standard)).on .stuck).1 =
      .error .outOfRange ∧
    ((((Operation.recover .epoch).perform (Services.recording .standard)).on
      .stuck).2.world.cursors.find? ⟨.ofNat 0, "ada"⟩).map Cursor.state = some .pending := by
  decide +kernel

end MailCampaign
