import MailCampaign.Proofs.Engine.Halves
import MailCampaign.Proofs.Engine.Keep
import MailCampaign.Proofs.Engine.Step
import MailCampaign.Proofs.World.MailCounted
import MailCampaign.Proofs.World.Visits

/-!
# Mails handed over

An opening that comes to a mail leaves the world as it is, and the cursor that it read may send the
mail: it is at a mail, running, and has just come there or its timer is due. While the typesetter and
the mailer are at work the cursor may be canceled and counted on, but takes no turn. So a closing finds
it there, and after a mail that was accepted the cursor is in a later visit or its flow is over.
-/

namespace MailCampaign

/-- The mail of a cursor may be handed over: it was read from the world, in which it may send. -/
structure Handover.Due (h : Handover) (key : CursorKey) (now : Instant) (w : World) : Prop where
  stored : w.cursors.find? key = some h.cursor
  here : h.cursor.At w.flows h.graph h.node
  mails : h.node.Mails
  sendable : h.cursor.Sendable now

theorem Handover.Due.key {h : Handover} {key : CursorKey} {now : Instant} {w : World}
    (hd : h.Due key now w) : h.cursor.key = key := CursorStore.key_eq_of_find? hd.stored

theorem Cursor.Sendable.running {c : Cursor} {now : Instant} (h : c.Sendable now) :
    c.state.terminal = false := by
  rcases h with h | ⟨h, -⟩
  · exact CursorState.terminal_of_entering h
  · rw [h]; rfl

theorem Cursor.of_mailDue? {c : Cursor} {node : Node} {trigger : Trigger} {now : Instant}
    {mail : Mail} (h : c.mailDue? node trigger now = some mail) : node.Mails ∧ c.Sendable now := by
  unfold mailDue? at h
  split at h
  · next mail ha =>
    split at h
    · next he => exact ⟨⟨mail, ha⟩, .inl he⟩
    · cases h
  · next mail ha =>
    split at h
    · next hd => exact ⟨⟨mail, ha⟩, .inr hd⟩
    · cases h
  · cases h

namespace Change

variable {retry : RetryPolicy} {key : CursorKey} {trigger : Trigger} {now : Instant} {w v u : World}
  {h : Handover} {during : Scope}

/-- What ended comes to no mail. -/
theorem on_ended_ne (d : Change Outcome) (w : World) :
    (Opened.ended <$> d).on w ≠ (.ok (.sends h), v) := by
  rw [on_map]
  rcases d.on w with ⟨x | o, u⟩ <;> nofun

/-- An opening that comes to a mail leaves the world as it is. -/
theorem openStep_sends {g : Graph} {c : Cursor} {node : Node}
    (hon : (openStep g c node trigger now).on w = (.ok (.sends h), v)) :
    v = w ∧ h.graph = g ∧ h.cursor = c ∧ h.node = node ∧ node.Mails ∧ c.Sendable now := by
  unfold openStep at hon
  split at hon
  · exact absurd hon (on_ended_ne _ _)
  · next mail hmail =>
    rw [on_bind_ok (on_get w)] at hon
    split at hon
    · exact absurd hon (on_ended_ne _ _)
    · cases hon
      obtain ⟨hmails, hsend⟩ := Cursor.of_mailDue? hmail
      exact ⟨rfl, rfl, rfl, rfl, hmails, hsend⟩

theorem opening_sends_unhalted (hon : (opening key trigger now).on w = (.ok (.sends h), v)) :
    v = w ∧ h.Due key now w ∧ (w.status h.cursor.campaignId).halts = false := by
  unfold opening at hon
  cases hc : w.cursors.find? key with
  | none =>
    rw [on_bind_error (on_cursor_none hc)] at hon
    cases hon
  | some c =>
    obtain rfl := CursorStore.key_eq_of_find? hc
    rw [on_bind_ok (on_cursor_some hc), on_bind_ok (on_get w)] at hon
    split at hon
    · cases hon
    · split at hon
      · rw [on_bind] at hon
        split at hon <;> cases hon
      · next hst =>
        cases hg : w.flows.find? c.key.flowId with
        | none =>
          rw [hg, on_bind_error (on_need_none _ w)] at hon
          cases hon
        | some g =>
          rw [hg, on_bind_ok (on_need_some _ g w)] at hon
          cases hn : g.node? c.nodeId with
          | none =>
            rw [hn] at hon
            exact absurd hon (on_ended_ne _ _)
          | some node =>
            rw [hn] at hon
            obtain ⟨hw, rfl, rfl, rfl, hmails, hsend⟩ := openStep_sends hon
            exact ⟨hw, ⟨hc, ⟨hg, hn⟩, hmails, hsend⟩, Bool.eq_false_iff.2 hst⟩

theorem opening_sends (hon : (opening key trigger now).on w = (.ok (.sends h), v)) :
    v = w ∧ h.Due key now w :=
  ⟨(opening_sends_unhalted hon).1, (opening_sends_unhalted hon).2.1⟩

/-- An opening takes a course in which its cursor alone takes turns. -/
theorem opening_course (retry : RetryPolicy) (key : CursorKey) (trigger : Trigger) (now : Instant)
    (w : World) : w.Course retry (Scope.one key).mailing ((opening key trigger now).on w).2 := by
  -- Any services will do, as they are not called before the opening is over.
  let svc : Services Nat := ⟨logMailer, .ofTable .empty, retry⟩
  have hfollows : (Engine.dispatchOnce svc key trigger now).Follows svc (.one key) :=
    Engine.dispatchOnce_follows key trigger now
  have htrail := hfollows ⟨w, 0⟩
  rw [Engine.dispatchOnce_eq, Engine.on_bind, Engine.on_lift] at htrail
  rcases hon : (opening key trigger now).on w with ⟨x | o | h, v⟩
  · rw [hon] at htrail
    exact htrail.course
  · rw [hon] at htrail
    exact htrail.course
  · rw [(opening_sends hon).1]

/-! ## Closings -/

section Closing

variable (hd : h.Due key now u) (hn : ¬ during.turns key) (hw : u.Course retry during w)

include hd hn hw

/-- A closing takes a course in which its cursor alone takes turns. -/
theorem closing_course (result : Except SendFault String) :
    w.Course retry (.one key) ((closing retry h now result).on w).2 := by
  obtain ⟨mail, hmail⟩ := hd.mails
  obtain rfl := hd.key
  unfold closing
  rw [hushed_snd]
  have hturns : (Scope.one h.cursor.key).turns h.cursor.key := rfl
  exact (settleMail_steps hturns hd.stored hn hw hd.here hmail hd.sendable).course

/-- After a mail that was accepted the cursor is in a later visit, or it ended. -/
theorem closing_accepted (messageId : String) :
    ∃ d, ((closing retry h now (.ok messageId)).on w).2.cursors.find? key = some d ∧
      (d.state.terminal = true ∨ h.cursor.visit < d.visit) := by
  obtain rfl := hd.key
  let books := (w.count (sentEvent h.cursor messageId now) (some h.cursor.key) now).report h.cursor
    (.mailSent messageId) h.node.id now
  have hbooks : u.Course retry during books :=
    hw.trans ((World.count_course w _ _ _).trans (World.booked_report _ _ _ _ _).course)
  obtain ⟨b, hb, hidle⟩ := hbooks.idled hn hd.stored
  have hsnd : ((closing retry h now (.ok messageId)).on w).2 =
      ((advance h.graph h.cursor h.node .next "sent" now).on books).2 := by
    unfold closing
    rw [hushed_snd]
    rfl
  rw [hsnd]
  rcases hidle with ht | heq
  · rw [advance_ended hb ht]
    exact ⟨b, World.find?_storeCursor_self hb rfl, .inl ht⟩
  · -- The cursor is as it was read but for its counters, so it leaves its step.
    have hnode : b.nodeId = h.node.id := by rw [heq]; exact hd.here.nodeId
    have hsend : b.Sendable now := by rw [heq]; exact hd.sendable
    have hvisit : b.visit = h.cursor.visit := by rw [heq]; rfl
    obtain ⟨d, hkey, -, -, hhistory, -, hcursors⟩ :=
      advance_leaves (c := h.cursor) h.graph .next "sent" hb hnode hsend
    refine ⟨d, ?_, .inr ?_⟩
    · rw [hcursors]
      exact World.find?_storeCursor_self hb hkey
    · have hdeparts : Step.Departs ⟨b.nodeId, h.node.action.name, "sent", now⟩ :=
        List.mem_cons_self
      rw [← hvisit, Cursor.visit, Cursor.visit, Cursor.visits_concat hhistory,
        Visits.add_departs hdeparts, List.length_append]
      exact Nat.lt_succ_self _

end Closing

end Change

/-! ## Steps -/

namespace Engine

/-- A step keeps to a relation when its opening does, the rendering of a mail, the settling of a fault
in it, and every mail that was rendered with what follows. -/
theorem Keeps.dispatchOnce {σ : Type} {R : Session σ → Session σ → Prop} [IsPreorder (Session σ) R]
    {svc : Services σ} {key : CursorKey} {trigger : Trigger} {now : Instant}
    (hopening : (liftM (Change.opening key trigger now) : Engine σ Opened).Keeps R)
    (hrender : ∀ mail lead, (render svc.renderer mail lead).Keeps R)
    (hfault : ∀ (h : Handover) e, h.cursor.key = key →
      (liftM (Change.closing svc.retry h now (.error e)) : Engine σ Outcome).Keeps R)
    (hmail : ∀ (h : Handover) t, h.cursor.key = key → (handOn svc key now h t).Keeps R) :
    (dispatchOnce svc key trigger now).Keeps R := by
  intro s
  have hopened := hopening s
  rw [dispatchOnce_eq, on_bind]
  rw [on_lift] at hopened ⊢
  rcases hon : (Change.opening key trigger now).on s.world with ⟨x | o | h, v⟩ <;>
    rw [hon] at hopened
  · exact hopened
  · exact hopened
  · have hkey := (Change.opening_sends hon).2.key
    have hrendered := hrender h.mail h.lead ⟨v, s.mailer⟩
    refine trans_of R hopened (trans_of R hrendered ?_)
    dsimp only
    rcases on_goOn svc key now h ⟨v, s.mailer⟩ with ⟨e, he⟩ | ⟨t, ht⟩
    · rw [he]
      exact hfault h e hkey _
    · rw [ht]
      exact hmail h t hkey _

end Engine

end MailCampaign
