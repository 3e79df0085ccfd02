import MailCampaign.Proofs.World.MailCounted
import MailCampaign.Proofs.World.Posted

/-!
# The deeds of a dispatch

While cursors are dispatched, deeds of six kinds are done to the world: a stored cursor takes a form
with the same counters, the end of a cursor is counted, a milestone is told of, a mail that went out is
counted, a campaign gets a status, and a lead unsubscribes. The last two are done from outside, while a
mailer is at work. So what engagement was counted before is touched by the last deed alone, and of the
keys of events it alone lets one in.
-/

namespace MailCampaign

/-- A cursor of the same key in the same campaign, with the same counters. -/
structure Cursor.SameCounts (c d : Cursor) : Prop where
  key : d.key = c.key
  campaignId : d.campaignId = c.campaignId
  counters : d.counters = c.counters

theorem Cursor.SameCounts.refl (c : Cursor) : c.SameCounts c := ⟨rfl, rfl, rfl⟩

namespace World

/-- A mail with the id was accepted. -/
def HasSent (w : World) (id : String) : Prop := ∃ mail ∈ w.submissions, mail.result = .ok id

/-- What is done to a world while cursors are dispatched, if mail goes out and if the outside
interrupts. -/
inductive Deed (mails interrupted : Prop) (w : World) : World → Prop
  /-- A stored cursor takes a form with the same counters. -/
  | moved {c d : Cursor} : w.cursors.find? c.key = some c → c.SameCounts d →
      Deed mails interrupted w (w.storeCursor c d)
  /-- The end of a cursor is counted. -/
  | ended (campaign : Uuid) (state : CursorState) :
      Deed mails interrupted w (w.countOutcome campaign state)
  /-- A milestone is told of. -/
  | told (c : Cursor) (milestone : Milestone) (nodeId : String) (now : Instant) :
      Deed mails interrupted w (w.report c milestone nodeId now)
  /-- A mail that went out is counted. -/
  | mailed {id : String} (c : Cursor) (now : Instant) : mails → w.HasSent id →
      Deed mails interrupted w (w.count (Change.sentEvent c id now) (some c.key) now)
  /-- A campaign gets a status. -/
  | status (campaign : Uuid) (status : CampaignStatus) : interrupted →
      Deed mails interrupted w (w.setStatus campaign status)
  /-- A lead unsubscribes. -/
  | unsubscribed {e : Engagement} (now : Instant) : interrupted → e.kind = .unsubscribed →
      Deed mails interrupted w ((Change.ingestHalting e now).on w).2

/-- Any number of deeds. -/
abbrev Deeds (mails interrupted : Prop) : World → World → Prop :=
  Relation.ReflTransGen (Deed mails interrupted)

instance (mails interrupted : Prop) : IsPreorder World (Deeds mails interrupted) where
  refl := fun _ => .refl
  trans := fun _ _ _ => .trans

variable {mails interrupted : Prop} {w v : World}

/-- What is preserved by every deed is preserved by any number of them. -/
theorem Deeds.keeps {R : World → World → Prop} [IsPreorder World R] (h : w.Deeds mails interrupted v)
    (hR : ∀ w v : World, w.Deed mails interrupted v → R w v) : R w v :=
  Relation.reflTransGen_le_of_le hR _ _ h

/-- A deed is done without interruption, or from outside. -/
theorem Deed.inside_or (h : w.Deed mails interrupted v) :
    w.Deed mails False v ∨ (∃ campaign status, v = w.setStatus campaign status) ∨
      ∃ e now, interrupted ∧ e.kind = .unsubscribed ∧
        v = ((Change.ingestHalting e now).on w).2 := by
  cases h with
  | moved hc hd => exact .inl (.moved hc hd)
  | ended campaign state => exact .inl (.ended campaign state)
  | told c milestone nodeId now => exact .inl (.told c milestone nodeId now)
  | mailed c now hmails hsent => exact .inl (.mailed c now hmails hsent)
  | status campaign status => exact .inr (.inl ⟨campaign, status, rfl⟩)
  | unsubscribed now hi he => exact .inr (.inr ⟨_, now, hi, he, rfl⟩)

theorem Deed.submissions (h : w.Deed mails interrupted v) : v.submissions = w.submissions := by
  cases h with
  | moved => rfl
  | ended campaign state =>
    exact (unmailed_countOutcome w campaign state : w.Unmailed (fun _ => False) _).submissions
  | told => rfl
  | mailed c now => exact sameMails_count w _ _ now
  | status => rfl
  | @unsubscribed e now _ he =>
    have hkind : e.kind ≠ .sent := by rw [he]; nofun
    have hunmailed : w.Unmailed (fun _ => True) ((Change.ingestHalting e now).on w).2 :=
      Change.ingestHalting_unmailed hkind trivial w
    exact hunmailed.submissions

theorem Deeds.submissions (h : w.Deeds mails interrupted v) : v.submissions = w.submissions := by
  induction h with
  | refl => rfl
  | tail _ h ih => exact h.submissions.trans ih

theorem HasSent.of_submissions {id : String} (h : w.HasSent id)
    (hv : v.submissions = w.submissions) : v.HasSent id := by
  unfold HasSent
  rw [hv]
  exact h

theorem HasSent.after {id : String} (hw : w.HasSent id) (h : w.Deeds mails interrupted v) :
    v.HasSent id := hw.of_submissions h.submissions

end World

namespace Change

open World

variable {α : Type} {mails interrupted : Prop} {key : CursorKey} {node : Node} {c d : Cursor}
  {g : Graph} {now : Instant}

/-! ## Moves -/

theorem revise_deeds {f : Cursor → Except Fault Cursor}
    (hf : ∀ c d, f c = .ok d → c.SameCounts d) :
    (revise key f).Keeps (Deeds mails interrupted) := by
  intro w
  cases hc : w.cursors.find? key with
  | none =>
    rw [revise, on_bind_error (on_cursor_none hc)]
  | some c =>
    have hkey := CursorStore.key_eq_of_find? hc ▸ hc
    cases hd : f c with
    | ok d =>
      rw [revise_ok hc hd]
      exact .single (.moved hkey (hf c d hd))
    | error x =>
      rw [revise_error hc hd]
      exact .single (.moved hkey (.refl c))

theorem move_deeds {state : CursorState} {outcome : String} {f : Cursor → Cursor}
    (hf : ∀ c : Cursor, c.SameCounts (f c)) :
    (move key node state outcome now f).Keeps (Deeds mails interrupted) := by
  refine revise_deeds fun c d h => ?_
  split at h
  · cases h
  · obtain ⟨-, rfl⟩ := running_of_permit h
    have hlog := hf (c.log node.action.name outcome state now)
    exact ⟨hlog.key, hlog.campaignId, hlog.counters⟩

theorem report_deeds {milestone : Milestone} {nodeId : String} :
    (apply (·.report c milestone nodeId now)).Keeps (Deeds mails interrupted) :=
  .apply fun _ => .single (.told c milestone nodeId now)

theorem finish_deeds {nodeId : String} {state : CursorState} {milestone : Milestone} :
    (finish c nodeId state milestone now).Keeps (Deeds mails interrupted) :=
  (Keeps.apply fun _ => (Relation.ReflTransGen.single (.ended c.campaignId state)).tail
    (.told c milestone nodeId now)).bind fun _ => .pure _

theorem fail_deeds {reason : String} : (fail key reason now).Keeps (Deeds mails interrupted) := by
  refine (revise_deeds fun c d h => ?_).bind fun _ => finish_deeds
  obtain ⟨-, rfl⟩ := running_of_permit h
  exact ⟨rfl, rfl, rfl⟩

theorem cancel_deeds {reason : String} : (cancel key reason now).Keeps (Deeds mails interrupted) := by
  intro w
  unfold cancel
  cases hc : w.cursors.find? key with
  | none =>
    rw [on_bind_error (on_cursor_none hc)]
  | some c =>
    have hkey := CursorStore.key_eq_of_find? hc ▸ hc
    rw [on_bind_ok (on_cursor_some hc)]
    split
    · exact .single (.moved hkey (.refl c))
    · have hcanceled : w.Deeds mails interrupted (w.storeCursor c (canceled reason now c)) :=
        .single (.moved hkey ⟨rfl, rfl, rfl⟩)
      exact hcanceled.trans ((finish_deeds.discard.bind fun _ => .pure _) _)

theorem advance_deeds {branch : Branch} {outcome : String} :
    (advance g c node branch outcome now).Keeps (Deeds mails interrupted) := by
  unfold advance
  split
  · next next _ =>
    have hmove : (move c.key node .active outcome now fun c => c.moveTo next.id).Keeps
        (Deeds mails interrupted) := move_deeds fun _ => ⟨rfl, rfl, rfl⟩
    exact hmove.discard.bind fun _ => .pure _
  · have hmove : (move c.key node .completed outcome now Cursor.release).Keeps
        (Deeds mails interrupted) := move_deeds fun _ => ⟨rfl, rfl, rfl⟩
    exact hmove.discard.bind fun _ => finish_deeds

theorem scheduleDelay_deeds {wait : Wait} :
    (scheduleDelay c node wait now).Keeps (Deeds mails interrupted) := by
  refine Keeps.bind (.need _ _) fun fireAt => ?_
  have hmove : (move c.key node .waitingDelay "delay_scheduled" now
      fun c => { c with nextRun := some fireAt }).Keeps (Deeds mails interrupted) :=
    move_deeds fun _ => ⟨rfl, rfl, rfl⟩
  exact hmove.discard.bind fun _ => report_deeds.bind fun _ => .pure _

theorem reachGoal_deeds : (reachGoal c node now).Keeps (Deeds mails interrupted) := by
  have hmove : (move c.key node .goalReached "goal_reached" now
      fun c => { c with goalReachedAt := some now }).Keeps (Deeds mails interrupted) :=
    move_deeds fun _ => ⟨rfl, rfl, rfl⟩
  exact hmove.discard.bind fun _ => finish_deeds

theorem resolve_deeds {k : Condition} {cause : Cause} :
    (resolve g c node k cause now).Keeps (Deeds mails interrupted) := by
  unfold resolve
  split
  · exact .pure _
  · split
    · exact .pure _
    · exact advance_deeds.bind fun _ => report_deeds.bind fun _ => .pure _

theorem enterCondition_deeds {k : Condition} :
    (enterCondition g c node k now).Keeps (Deeds mails interrupted) := by
  refine Keeps.bind (.need _ _) fun deadline => ?_
  have hmove : (move c.key node .waitingCondition "condition_entered" now fun c =>
      { c with nextRun := some deadline, window := some ⟨node.id, now, deadline, []⟩ }).Keeps
      (Deeds mails interrupted) := move_deeds fun _ => ⟨rfl, rfl, rfl⟩
  exact hmove.bind fun _ => resolve_deeds

theorem observed_sameCounts {e : Engagement} (h : observed e node now c = some d) :
    c.SameCounts d := by
  unfold observed at h
  split at h
  · split at h
    · exact Option.some.inj h ▸ ⟨rfl, rfl, rfl⟩
    · cases h
  · cases h

theorem observe_deeds {k : Condition} {e : Engagement} :
    (observe g c node k e now).Keeps (Deeds mails interrupted) := by
  unfold observe
  split
  · exact .pure _
  · intro w
    cases hc : w.cursors.find? c.key with
    | none =>
      rw [on_bind_error (on_cursor_none hc)]
    | some stored =>
      have hkey := CursorStore.key_eq_of_find? hc ▸ hc
      rw [on_bind_ok (on_cursor_some hc)]
      cases ho : observed e node now stored with
      | none => exact .single (.moved hkey (.refl stored))
      | some new =>
        have hnew : w.Deeds mails interrupted (w.storeCursor stored new) :=
          .single (.moved hkey (observed_sameCounts ho))
        exact hnew.trans (resolve_deeds _)

theorem mailFailed_deeds {policy : RetryPolicy} {reason : String} :
    (mailFailed policy c node reason now).Keeps (Deeds mails interrupted) := by
  unfold mailFailed
  dsimp only
  split
  · exact fail_deeds
  · refine Keeps.bind (.need _ _) fun retryAt => ?_
    have hmove : (move c.key node .waitingDelay "send_retry" now
        fun d => { d with retries := c.retries + 1, nextRun := some retryAt }).Keeps
        (Deeds mails interrupted) := move_deeds fun _ => ⟨rfl, rfl, rfl⟩
    exact hmove.discard.bind fun _ => report_deeds.bind fun _ => .pure _

/-- What follows a mail that was sent, or not. -/
theorem settleMail_deeds {policy : RetryPolicy} {result : Except SendFault String} {w : World}
    (hm : mails) (hsent : ∀ id, result = .ok id → w.HasSent id) :
    w.Deeds mails interrupted ((settleMail policy g c node now result).on w).2 := by
  rcases result with (reason | reason) | id
  · exact mailFailed_deeds w
  · exact fail_deeds w
  · have hbooked : w.Deeds mails interrupted
        ((w.count (sentEvent c id now) (some c.key) now).report c (.mailSent id) node.id now) :=
      (Relation.ReflTransGen.single (.mailed c now hm (hsent id rfl))).tail
        (.told c (.mailSent id) node.id now)
    exact hbooked.trans (advance_deeds _)

/-! ## Control -/

theorem requireCampaign_deeds {campaign : Uuid} :
    (requireCampaign campaign).Keeps (Deeds mails interrupted) := by
  intro w
  rw [on_requireCampaign]
  split <;> exact .refl

theorem setStatus_deeds {campaign : Uuid} {status : CampaignStatus} (hi : interrupted) :
    (apply (·.setStatus campaign status)).Keeps (Deeds mails interrupted) :=
  .apply fun _ => .single (.status campaign status hi)

theorem cancelRunning_deeds {campaign : Uuid} {reason : String} :
    (cancelRunning campaign reason now).Keeps (Deeds mails interrupted) :=
  .get fun w => Keeps.cancelAll (fun _ => cancel_deeds) _ w

theorem pause_deeds {campaign : Uuid} (hi : interrupted) :
    (pause campaign now).Keeps (Deeds mails interrupted) := by
  refine requireCampaign_deeds.bind fun _ => .get fun w => ?_
  split
  · exact .refl
  · exact ((setStatus_deeds hi).bind fun _ => cancelRunning_deeds) w

theorem cancelCampaign_deeds {campaign : Uuid} (hi : interrupted) :
    (cancelCampaign campaign now).Keeps (Deeds mails interrupted) :=
  requireCampaign_deeds.bind fun _ => (setStatus_deeds hi).bind fun _ => cancelRunning_deeds

theorem resume_deeds {campaign : Uuid} (hi : interrupted) :
    (resume campaign).Keeps (Deeds mails interrupted) := by
  refine requireCampaign_deeds.bind fun _ => .get fun w => ?_
  cases w.status campaign with
  | paused => exact setStatus_deeds hi w
  | _ => exact .refl

/-- Stopping a lead counts for the ends of its cursors alone. -/
theorem haltLead_deeds {e : Engagement} : (haltLead e now).Keeps (Deeds mails interrupted) :=
  .get fun w => ((Keeps.cancelAll (fun _ => cancel_deeds) _).bind fun _ => .pure _) w

theorem unsubscription_deeds {leadId : String} {campaign : Uuid} {k : String} (hi : interrupted) :
    (ingestHalting (Engine.unsubscription leadId campaign k now) now).Keeps
      (Deeds mails interrupted) := fun _ => .single (.unsubscribed now hi rfl)

end Change

end MailCampaign
