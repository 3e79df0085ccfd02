import MailCampaign.Proofs.Engine.Maintain
import MailCampaign.Proofs.Run.Lineage
import MailCampaign.Proofs.Run.Succession

/-!
# Prodded engines

Besides its operations an engine may be made to run the step of any one cursor with any trigger at any
instant, also where the campaign is halted. A run in which this may happen between the operations, and
in which engines may take each other's place by snapshots, comes to prodded sessions. The looks of the
mailer are on record as in any run.

1. A fact that lasts, and that a restart and the notes of moments keep, holds of every prodded session
   (`Prodded.holds`).
2. From the call of the mailer to the closing of the step no cursor takes a turn
   (`Engine.handOn_recorded`).
-/

namespace MailCampaign

variable {σ : Type} {svc : Services σ} {allowed : Fault → Prop} {s t : Session (σ × List Moment)}

namespace Engine

/-- Runs the step at which a cursor is in its version, whatever the status of its campaign. -/
def poke (svc : Services σ) (key : CursorKey) (trigger : Trigger) (now : Instant) :
    Engine σ Outcome := do
  let w ← world
  let g ← Change.need (.missing (.flowVersion key.flowId)) (w.flows.find? key.flowId)
  execute svc g key trigger now

theorem on_poke {s : Session σ} {key : CursorKey} {g : Graph}
    (hg : s.world.flows.find? key.flowId = some g) (trigger : Trigger) (now : Instant) :
    (poke svc key trigger now).on s = (execute svc g key trigger now).on s := by
  have hneed : (liftM (Change.need (.missing (.flowVersion key.flowId))
      (s.world.flows.find? key.flowId)) : Engine σ Graph).on s = (.ok g, s) := by
    rw [on_lift, hg, Change.on_need_some]
  unfold poke
  rw [on_bind_ok (on_world s), on_bind_ok hneed]

end Engine

/-- The sessions of engines that perform operations, run steps of cursors by themselves and take each
other's place, with no faults but the allowed ones. -/
inductive Prodded (svc : Services σ) (allowed : Fault → Prop) : Session (σ × List Moment) → Prop
  | start (firstId : Nat) (mailer : σ) : Prodded svc allowed (.start firstId mailer)
  | perform {s t : Session (σ × List Moment)} {op : Operation} : Prodded svc allowed s →
      op.Leads svc allowed s t → Prodded svc allowed t
  | poke {s : Session (σ × List Moment)} (key : CursorKey) (trigger : Trigger) (now : Instant) :
      Prodded svc allowed s →
      (∀ x, ((Engine.poke svc.recording key trigger now).on s).1 = .error x → allowed x) →
      Prodded svc allowed ((Engine.poke svc.recording key trigger now).on s).2.noted
  | restart {s t : Session (σ × List Moment)} : Prodded svc allowed s → s.Restarted t →
      Prodded svc allowed t

namespace Prodded

theorem mono {allowed' : Fault → Prop} (h : Prodded svc allowed s)
    (hallowed : ∀ x, allowed x → allowed' x) : Prodded svc allowed' s := by
  induction h with
  | start firstId mailer => exact .start firstId mailer
  | perform _ hop ih =>
    exact ih.perform ⟨hop.fresh, fun x hx => hallowed x (hop.faults x hx), hop.next⟩
  | poke key trigger now _ hfaults ih =>
    exact ih.poke key trigger now fun x hx => hallowed x (hfaults x hx)
  | restart _ ht ih => exact ih.restart ht

/-- An operation that succeeds. -/
theorem succeed (h : Prodded svc allowed s) (op : Operation) (hfresh : op.Fresh s.world)
    (hok : ((op.perform svc.recording).on s).1 = .ok ⟨⟩) : Prodded svc allowed (op.next svc s) :=
  h.perform ⟨hfresh, fun x hx => (by rw [hok] at hx; cases hx), rfl⟩

end Prodded

/-- Runs are among them. -/
theorem Run.prodded (h : Run svc allowed s) : Prodded svc allowed s := by
  induction h with
  | start firstId mailer => exact .start firstId mailer
  | step op _ hfresh hfaults ih => exact ih.perform ⟨hfresh, hfaults, rfl⟩

/-! ## Facts that last -/

/-- Every operation maintains a fact that lasts. -/
theorem Operation.perform_maintains {svc : Services σ} {I : Session σ → Prop}
    (h : Engine.Lasting svc allowed I) (op : Operation) {s : Session σ} (hfresh : op.Fresh s.world)
    (hs : I s) (hfaults : ∀ x, ((op.perform svc).on s).1 = .error x → allowed x) :
    I ((op.perform svc).on s).2 := by
  cases op with
  | activate campaign document now =>
    unfold perform
    rw [Engine.on_lift, Change.on_discard]
    exact h.course s _ hs (Change.activate_course _ _ campaign document now hfresh)
  | enroll campaign lead now => exact (h.enroll campaign lead now).discard s hs hfaults
  | ingest e now => exact (h.ingest e now).discard s hs hfaults
  | dispatch key trigger now => exact (h.dispatch key trigger now).discard s hs hfaults
  | tick batchSize now => exact (h.tick batchSize now).discard s hs hfaults
  | pause campaign now => exact h.idle (Change.pause_follows campaign now).discard s hs hfaults
  | cancel campaign now =>
    exact h.idle (Change.cancelCampaign_follows campaign now).discard s hs hfaults
  | resume campaign => exact h.idle (Change.resume_follows campaign) s hs hfaults
  | prune ttlHours now => exact h.idle (Change.prune_follows ttlHours now).discard s hs hfaults
  | recover now => exact (h.recover now).discard s hs hfaults

theorem Engine.Lasting.poke {svc : Services σ} {I : Session σ → Prop}
    (h : Engine.Lasting svc allowed I) (key : CursorKey) (trigger : Trigger) (now : Instant) :
    (Engine.poke svc key trigger now).Maintains I allowed := by
  intro s hs hfaults
  cases hg : s.world.flows.find? key.flowId with
  | some g =>
    rw [on_poke hg] at hfaults ⊢
    exact h.execute hs hg hfaults
  | none =>
    unfold Engine.poke
    rw [on_bind_ok (on_world s), hg]
    exact hs

/-- A fact that lasts holds of every prodded session, if it holds at the start, does not end as the
flows and cursors are carried over, and survives notes of the world as it is. -/
theorem Prodded.holds {I : Session (σ × List Moment) → Prop} (h : Prodded svc allowed s)
    (hlasting : Engine.Lasting svc.recording allowed I)
    (hstart : ∀ firstId mailer, I ⟨World.empty firstId, mailer, []⟩)
    (hsound : ∀ s, I s → s.world.Sound)
    (hcarried : ∀ (s : Session (σ × List Moment)) (v : World) (mailer : σ), I s →
      v.Mirrors s.world → I ⟨v, mailer, s.moments⟩)
    (hnoted : ∀ s, I s → I s.noted) : I s := by
  induction h with
  | start firstId mailer => exact hnoted _ (hstart firstId mailer)
  | @perform s t op _ hop ih =>
    obtain ⟨hfresh, hfaults, rfl⟩ := hop
    exact hnoted _ (op.perform_maintains hlasting hfresh ih hfaults)
  | @poke s key trigger now _ hfaults ih =>
    exact hnoted _ (hlasting.poke key trigger now s ih hfaults)
  | restart _ ht ih =>
    obtain ⟨firstId, mailer, hsnap⟩ := ht
    exact hnoted _ (hcarried _ _ mailer ih ((hsound _ ih).mirrors_restore hsnap firstId))

/-! ## Mails on record -/

namespace Engine

/-- What happens while a mail is out is on record, and no cursor takes a turn in it. -/
theorem interruptions_coursed (svc : Services σ) (lead : Lead) (now : Instant)
    (l : List Interruption) (s : Session (σ × List Moment)) :
    s.world.Course svc.retry Scope.idle.mailing
        (l.foldl (disturbed svc.recording.mailer lead now) s).world ∧
      ∃ during, (l.foldl (disturbed svc.recording.mailer lead now) s).moments = during ++ s.moments ∧
        ∀ m ∈ during, (∃ i, m.scene = some (.interrupted i)) ∧
          s.world.Course svc.retry Scope.idle.mailing m.world := by
  induction l generalizing s with
  | nil => exact ⟨.refl, [], rfl, fun _ h => absurd h List.not_mem_nil⟩
  | cons i rest ih =>
    have hfirst : s.world.Course svc.retry Scope.idle.mailing (interrupted lead now s.world i) :=
      interruption_follows lead now i s.world
    obtain ⟨hrest, during, hmoments, hduring⟩ := ih (disturbed svc.recording.mailer lead now s i)
    refine ⟨hfirst.trans hrest, during ++ [⟨some (.interrupted i), interrupted lead now s.world i⟩],
      ?_, fun m hm => ?_⟩
    · rw [List.append_assoc]
      exact hmoments
    · rcases List.mem_append.1 hm with hm | hm
      · exact ⟨(hduring m hm).1, hfirst.trans (hduring m hm).2⟩
      · rw [List.mem_singleton.1 hm]
        exact ⟨⟨i, rfl⟩, hfirst⟩

/-- The mail of a cursor on record: the call of the mailer, what happens meanwhile, and the closing in
the world that it comes to. -/
theorem handOn_recorded (svc : Services σ) (key : CursorKey) (now : Instant) (h : Handover)
    (t : Template) (s : Session (σ × List Moment)) :
    ∃ result u during mailer, s.world.Course svc.retry Scope.idle.mailing u ∧
      (∀ m ∈ during, (∃ i, m.scene = some (.interrupted i)) ∧
        s.world.Course svc.retry Scope.idle.mailing m.world) ∧
      (handOn svc.recording key now h t).on s =
        (((Change.closing svc.retry h now result).on u).1,
          ⟨((Change.closing svc.retry h now result).on u).2, mailer,
            during ++ ⟨some (.call key now), s.world⟩ :: s.moments⟩) := by
  let called := looked svc.recording.mailer (.call key now) s
  let answer := (svc.recording.mailer.send called.mailer h.lead t).1
  let handed := handedOver svc.recording.mailer h.lead t called
  let back := answer.interruptions.foldl (disturbed svc.recording.mailer h.lead now) handed
  have hon : (deliver svc.recording.mailer key h.lead t now).on s = (.ok answer.result, back) := rfl
  have hhanded : s.world.Course svc.retry Scope.idle.mailing handed.world :=
    .single (.mailed _ trivial)
  have hback : handed.world.Course svc.retry Scope.idle.mailing back.world ∧
      ∃ during, back.moments = during ++ handed.moments ∧
        ∀ m ∈ during, (∃ i, m.scene = some (.interrupted i)) ∧
          handed.world.Course svc.retry Scope.idle.mailing m.world :=
    interruptions_coursed svc h.lead now answer.interruptions handed
  obtain ⟨hcourse, during, hmoments, hduring⟩ := hback
  refine ⟨answer.result, back.world, during, back.mailer.1, hhanded.trans hcourse,
    fun m hm => ⟨(hduring m hm).1, hhanded.trans (hduring m hm).2⟩, ?_⟩
  unfold handOn
  rw [on_bind_ok hon, on_lift]
  refine Prod.ext rfl ?_
  show (⟨_, back.mailer.1, back.moments⟩ : Session (σ × List Moment)) = _
  rw [hmoments]
  rfl

end Engine

end MailCampaign
