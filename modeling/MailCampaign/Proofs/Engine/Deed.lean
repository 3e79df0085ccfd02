import MailCampaign.Proofs.Engine.Handover
import MailCampaign.Proofs.Engine.Rounds
import MailCampaign.Proofs.World.Deed

/-!
# The deeds of the engine

To a session a dispatch does what it does to the world, renders mails, lets the mailer look and hands
mails over. A mailer that lets nothing happen meanwhile keeps the outside from interrupting. An event
for which no condition listens moves no cursor on, so no mail goes out while it is routed.
-/

namespace MailCampaign

variable {σ α : Type}

/-- Nothing happens while the mailer is at work. -/
def Mailer.Quiet (mailer : Mailer σ) : Prop :=
  ∀ state lead mail, (mailer.send state lead mail).1.interruptions = []

theorem quiet_logMailer : logMailer.Quiet := by
  intro state lead mail
  unfold logMailer
  dsimp only
  split <;> rfl

namespace Session

/-- What is done to a session while cursors are dispatched. -/
inductive Deed (svc : Services σ) (mails interrupted : Prop) (s : Session σ) : Session σ → Prop
  /-- A deed is done to the world. -/
  | world {w : World} : s.world.Deed mails interrupted w →
      Deed svc mails interrupted s { s with world := w }
  /-- A mail is rendered. -/
  | render (mail : Mail) (lead : Lead) :
      Deed svc mails interrupted s ((Engine.render svc.renderer mail lead).on s).2
  /-- The mailer looks at the world. -/
  | look (scene : Scene) : Deed svc mails interrupted s (Engine.looked svc.mailer scene s)
  /-- The mailer takes a mail. -/
  | hand (lead : Lead) (mail : Template) : mails →
      Deed svc mails interrupted s (Engine.handedOver svc.mailer lead mail s)

/-- Any number of deeds. -/
abbrev Deeds (svc : Services σ) (mails interrupted : Prop) : Session σ → Session σ → Prop :=
  Relation.ReflTransGen (Deed svc mails interrupted)

variable {svc : Services σ} {mails interrupted : Prop} {s t : Session σ}

instance : IsPreorder (Session σ) (Deeds svc mails interrupted) where
  refl := fun _ => .refl
  trans := fun _ _ _ => .trans

theorem Deeds.of_world {w : World} (h : s.world.Deeds mails interrupted w) :
    s.Deeds svc mails interrupted { s with world := w } := by
  induction h with
  | refl => exact .refl
  | tail _ h ih => exact ih.tail (.world h)

/-- What is preserved by every deed and as a mail is handed over is preserved by any number of them. -/
theorem Deeds.keeps {R : World → World → Prop} [IsPreorder World R]
    (h : s.Deeds svc mails interrupted t) (hdeed : ∀ w v : World, w.Deed mails interrupted v → R w v)
    (hhand : ∀ (w : World) mail, R w (w.emit (.submission mail))) : R s.world t.world := by
  induction h with
  | refl => exact refl_of R _
  | tail _ hstep ih =>
    refine trans_of R ih ?_
    cases hstep with
    | world h => exact hdeed _ _ h
    | render =>
      rw [Engine.world_render]
      exact refl_of R _
    | look => exact refl_of R _
    | hand lead mail => exact hhand _ _

theorem Deed.hasSent (h : s.Deed svc mails interrupted t) {id : String}
    (hs : s.world.HasSent id) : t.world.HasSent id := by
  cases h with
  | world h => exact hs.after (.single h)
  | render =>
    rw [Engine.world_render]
    exact hs
  | look => exact hs
  | hand lead mail =>
    obtain ⟨sent, hmem, hid⟩ := hs
    exact ⟨sent, List.mem_cons_of_mem _ hmem, hid⟩

theorem Deeds.hasSent (h : s.Deeds svc mails interrupted t) {id : String}
    (hs : s.world.HasSent id) : t.world.HasSent id := by
  induction h with
  | refl => exact hs
  | tail _ h ih => exact h.hasSent ih

end Session

namespace Change

variable {mails interrupted : Prop} {g : Graph} {c : Cursor} {node : Node} {key : CursorKey}
  {trigger : Trigger} {now : Instant}

/-- A step without mail does what is done there. -/
theorem handle_deeds : (handle g c node trigger now).Keeps (World.Deeds mails interrupted) :=
  .handle (fun _ => scheduleDelay_deeds) advance_deeds (fun _ => enterCondition_deeds)
    (fun _ => resolve_deeds) (fun _ _ => observe_deeds) reachGoal_deeds

theorem opening_deeds : (opening key trigger now).Keeps (World.Deeds mails interrupted) :=
  .opening cancel_deeds (fun _ _ => fail_deeds) fun _ _ _ => handle_deeds

end Change

namespace Engine

open Session

variable {svc : Services σ} {mails interrupted : Prop} {g : Graph} {c : Cursor} {node : Node}
  {key : CursorKey} {trigger : Trigger} {now : Instant}

theorem deeds_lift {e : Change α} (h : e.Keeps (World.Deeds mails interrupted)) :
    (liftM e : Engine σ α).Keeps (Deeds svc mails interrupted) := fun s => .of_world (h s.world)

/-! ## Deliveries -/

theorem interruption_deeds {lead : Lead} (hi : interrupted) (i : Interruption) :
    (interruption lead now i).Keeps (World.Deeds mails interrupted) := by
  cases i with
  | pause campaign => exact (Change.pause_deeds hi).discard
  | cancel campaign => exact (Change.cancelCampaign_deeds hi).discard
  | unsubscribe campaign k => exact (Change.unsubscription_deeds hi).discard
  | unsubscribeOther leadId campaign k => exact (Change.unsubscription_deeds hi).discard

theorem interruptions_deeds {lead : Lead} (hi : interrupted) (l : List Interruption)
    (s : Session σ) :
    s.Deeds svc mails interrupted (l.foldl (disturbed svc.mailer lead now) s) := by
  induction l generalizing s with
  | nil => exact .refl
  | cons i rest ih =>
    have hworld : s.Deeds svc mails interrupted
        { s with world := Engine.interrupted lead now s.world i } :=
      .of_world (interruption_deeds hi i s.world)
    exact (hworld.tail (.look (.interrupted i))).trans (ih _)

/-- A delivery succeeds, with whatever result; a mail that was accepted has been sent. -/
theorem deliver_deeds (hm : mails) (hq : svc.mailer.Quiet ∨ interrupted) (key : CursorKey)
    (lead : Lead) (mail : Template) (now : Instant) (s : Session σ) :
    ∃ result t, (deliver svc.mailer key lead mail now).on s = (.ok result, t) ∧
      s.Deeds svc mails interrupted t ∧ ∀ id, result = .ok id → t.world.HasSent id := by
  let called := looked svc.mailer (.call key now) s
  let answer := (svc.mailer.send called.mailer lead mail).1
  let handed := handedOver svc.mailer lead mail called
  have hhanded : s.Deeds svc mails interrupted handed :=
    (Relation.ReflTransGen.single (.look (.call key now))).tail (.hand lead mail hm)
  have hmeanwhile : handed.Deeds svc mails interrupted
      (answer.interruptions.foldl (disturbed svc.mailer lead now) handed) := by
    rcases hq with hquiet | hi
    · rw [hquiet called.mailer lead mail]
      exact .refl
    · exact interruptions_deeds hi _ _
  refine ⟨answer.result, _, rfl, hhanded.trans hmeanwhile, fun id hid => hmeanwhile.hasSent ?_⟩
  exact ⟨_, List.mem_cons_self, hid⟩

theorem attempt_deeds (hm : mails) (hq : svc.mailer.Quiet ∨ interrupted) (key : CursorKey)
    (mail : Mail) (lead : Lead) (now : Instant) (s : Session σ) :
    ∃ result t, (attempt svc key mail lead now).on s = (.ok result, t) ∧
      s.Deeds svc mails interrupted t ∧ ∀ id, result = .ok id → t.world.HasSent id := by
  have hrendered : s.Deeds svc mails interrupted ((render svc.renderer mail lead).on s).2 :=
    .single (.render mail lead)
  rcases on_attempt svc key mail lead now s with ⟨e, he⟩ | ⟨text, htext⟩
  · exact ⟨_, _, he, hrendered, fun id h => by cases h⟩
  · obtain ⟨result, t, hon, ht, hsent⟩ :=
      deliver_deeds hm hq key lead text now ((render svc.renderer mail lead).on s).2
    exact ⟨result, t, htext.trans hon, hrendered.trans ht, hsent⟩

/-! ## Steps -/

theorem sendMail_deeds (hm : mails) (hq : svc.mailer.Quiet ∨ interrupted) {mail : Mail} :
    (sendMail svc g c node mail now).Keeps (Deeds svc mails interrupted) := by
  intro s
  unfold sendMail
  rw [on_bind_ok (on_world s)]
  cases s.world.leads.find? c.leadId with
  | none => exact deeds_lift Change.fail_deeds s
  | some lead =>
    obtain ⟨result, t, hon, ht, hsent⟩ := attempt_deeds hm hq c.key mail lead now s
    dsimp only
    rw [on_bind_ok hon]
    exact ht.trans (Deeds.of_world (Change.settleMail_deeds hm hsent))

theorem perform_deeds (hm : mails) (hq : svc.mailer.Quiet ∨ interrupted) :
    (perform svc g c node trigger now).Keeps (Deeds svc mails interrupted) := by
  rw [perform_eq]
  split
  · exact sendMail_deeds hm hq
  · exact deeds_lift Change.handle_deeds

/-- The step of a cursor does what is done there. -/
theorem Keeps.ignoreClash {e : Engine σ Outcome} (h : e.Keeps (Deeds svc mails interrupted)) :
    (ignoreClash e).Keeps (Deeds svc mails interrupted) := by
  refine .tryCatch h fun x => ?_
  cases x with
  | clash => exact .pure _
  | _ => exact .throw _

theorem dispatchOnce_deeds (hm : mails) (hq : svc.mailer.Quiet ∨ interrupted) :
    (dispatchOnce svc key trigger now).Keeps (Deeds svc mails interrupted) := by
  have hexecute : ∀ g, (execute svc g key trigger now).Keeps (Deeds svc mails interrupted) := by
    refine fun g => (deeds_lift (.cursor key)).bind fun c => ?_
    split
    · exact .pure _
    · split
      · exact deeds_lift Change.fail_deeds
      · exact (perform_deeds hm hq).ignoreClash
  refine (deeds_lift (.cursor key)).bind fun c => .world fun w => ?_
  split
  · exact .pure _
  · split
    · exact (deeds_lift Change.cancel_deeds).discard.bind fun _ => .pure _
    · exact (deeds_lift (.need _ _)).bind hexecute

theorem dispatch_deeds (hm : mails) (hq : svc.mailer.Quiet ∨ interrupted) (trigger : Trigger)
    (now : Instant) (key : CursorKey) :
    (dispatch svc key trigger now).Keeps (Deeds svc mails interrupted) :=
  .dispatch (fun _ => dispatchOnce_deeds hm hq) trigger

theorem route_deeds (hm : mails) (hq : svc.mailer.Quiet ∨ interrupted) (e : Engagement)
    (now : Instant) : (route svc e now).Keeps (Deeds svc mails interrupted) :=
  .route (dispatch_deeds hm hq (.event e) now)

/-! ## Events that no condition listens for -/

variable {e : Engagement} {s : Session σ}

/-- No condition listens for events of a kind. -/
def Unwatched (kind : EngagementKind) : Prop := ∀ watch : Watch, watch.covers kind = false

theorem perform_unwatched (hk : Unwatched e.kind) :
    (perform svc g c node (.event e) now).on s = (.ok .ignored, s) := by
  unfold perform
  split
  · next h => cases h
  · next h => cases h
  · next h => cases h
  · next h => cases h
  · next h => cases h
  · next h => cases h
  · next k e' _ he =>
    cases he
    have hobserve : Change.observe g c node k e now = pure .ignored := by
      unfold Change.observe
      rw [hk k.watch, Bool.not_false, Bool.or_true, if_pos rfl]
    split
    · rw [hobserve]
      rfl
    · rfl
  · next h => cases h
  · rfl

/-- An operation that does not move a cursor on and sends no mail. -/
def Stays (svc : Services σ) (e : Engine σ Outcome) : Prop :=
  ∀ s : Session σ, (e.on s).1 ≠ .ok .moved ∧ s.Deeds svc False False (e.on s).2

theorem Stays.pure {o : Outcome} (ho : o ≠ .moved) :
    Stays svc (pure o) := fun _ => ⟨fun h => ho (Except.ok.inj h), .refl⟩

theorem Stays.bind {d : Engine σ α} {f : α → Engine σ Outcome}
    (hd : d.Keeps (Deeds svc False False)) (hf : ∀ a, Stays svc (f a)) : Stays svc (d >>= f) := by
  intro s
  have hs := hd s
  rw [on_bind]
  rcases hr : d.on s with ⟨x | a, t⟩ <;> rw [hr] at hs
  · exact ⟨nofun, hs⟩
  · exact ⟨(hf a t).1, hs.trans (hf a t).2⟩

theorem fail_stays (key : CursorKey) (reason : String) (now : Instant) :
    Stays svc (liftM (Change.fail key reason now)) := by
  intro s
  refine ⟨?_, deeds_lift Change.fail_deeds s⟩
  rw [on_lift]
  unfold Change.fail
  rw [Change.on_bind]
  split
  · rw [Change.on_finish]
    nofun
  · nofun

theorem dispatchOnce_unwatched (hk : Unwatched e.kind) (key : CursorKey) (now : Instant) :
    Stays svc (dispatchOnce svc key (.event e) now) := by
  have hexecute : ∀ g, Stays svc (execute svc g key (.event e) now) := by
    refine fun g => Stays.bind (deeds_lift (.cursor key)) fun c => ?_
    split
    · exact .pure nofun
    · split
      · exact fail_stays key _ now
      · intro s
        rw [on_ignoreClash, perform_unwatched hk]
        exact ⟨nofun, .refl⟩
  refine Stays.bind (deeds_lift (.cursor key)) fun c => .bind (.world fun w => .pure w) fun w => ?_
  split
  · exact .pure nofun
  · split
    · exact .bind (deeds_lift Change.cancel_deeds).discard fun _ => .pure nofun
    · exact .bind (deeds_lift (.need _ _)) hexecute

/-- No mail goes out while such an event is routed. -/
theorem route_unwatched (hk : Unwatched e.kind) :
    (route svc e now).Keeps (Deeds svc False False) := by
  refine .route fun key => .world fun w => ?_
  cases stepLimit w key with
  | zero => exact .pure _
  | succ n =>
    intro s
    have hstays : Stays svc (dispatchOnce svc key (.event e) now) := dispatchOnce_unwatched hk key now
    obtain ⟨hmoved, hdeeds⟩ := hstays s
    rw [dispatchSteps_last rfl hmoved n]
    exact hdeeds

end Engine

end MailCampaign
