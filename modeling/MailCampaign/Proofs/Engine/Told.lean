import MailCampaign.Proofs.Engine.Handover
import MailCampaign.Proofs.Engine.Keep
import MailCampaign.Proofs.World.Told

/-!
# Steps that tell what they do

The halves of a step tell what they do, and so do the interruptions while a mail is out.
-/

namespace MailCampaign

namespace Change

open World

variable {key : CursorKey} {node : Node} {c : Cursor} {g : Graph} {trigger : Trigger} {now : Instant}

theorem handle_tells : (handle g c node trigger now).Keeps (Tells now []) :=
  .handle (fun _ _ => scheduleDelay_speaks.tells) (fun _ => (advance_speaks (by decide)).tells)
    (fun _ => enterCondition_tells) (fun _ _ => resolve_speaks.tells)
    (fun _ _ _ => observe_speaks.tells) fun _ => reachGoal_speaks.tells

theorem opening_tells : (opening key trigger now).Keeps (Tells now []) :=
  .opening cancel_tells (fun _ _ _ => fail_speaks.tells) fun _ _ _ => handle_tells

theorem closing_tells (retry : RetryPolicy) (h : Handover) (now : Instant)
    (result : Except SendFault String) (w : World) :
    w.Tells now (result.toOption.toList.map fun _ => h.cursor.key)
      ((closing retry h now result).on w).2 := by
  unfold closing
  rw [hushed_snd]
  exact settleMail_tells retry h.graph h.cursor h.node now result w

end Change

namespace Engine

open World

variable {σ : Type} {lead : Lead} {now : Instant}

theorem interruption_tells (i : Interruption) :
    (interruption lead now i).Keeps (Tells now []) := by
  cases i with
  | pause campaign => exact Change.pause_tells.discard
  | cancel campaign => exact Change.cancelCampaign_tells.discard
  | unsubscribe campaign key => exact Change.ingestHalting_tells.discard
  | unsubscribeOther leadId campaign key => exact Change.ingestHalting_tells.discard

/-- What happens while a mail is out is told of. -/
theorem disturbed_tells (mailer : Mailer σ) (lead : Lead) (now : Instant) (l : List Interruption)
    (s : Session σ) : s.world.Tells now [] (l.foldl (disturbed mailer lead now) s).world := by
  induction l generalizing s with
  | nil => exact .refl s.world
  | cons i rest ih =>
    exact (interruption_tells i s.world).trans (ih (disturbed mailer lead now s i))

end Engine

end MailCampaign
