import MailCampaign.Engine.Dispatch
import MailCampaign.Proofs.World.Keep

/-!
# The halves of a step

Running the step of a cursor falls into two changes of the world with the typesetter and the mailer at
work in between. The opening goes from reading the cursor up to the mail, and does all there is to do
when no mail is due. The closing settles what the mailer answered, or that the mail was not rendered.
Neither depends on the typesetter or the mailer, and together they are what the engine runs
(`dispatchOnce_eq`).
-/

namespace MailCampaign

/-- A mail to be rendered and handed over, with the cursor that was read for it, its step and its
version. -/
structure Handover where
  graph : Graph
  cursor : Cursor
  node : Node
  lead : Lead
  mail : Mail

/-- What the opening of a step comes to. -/
inductive Opened where
  /-- The step was run without mail. -/
  | ended (outcome : Outcome)
  /-- A mail is to be rendered and handed over. -/
  | sends (h : Handover)

/-- The mail that a trigger has a cursor send at its step. -/
def Cursor.mailDue? (c : Cursor) (node : Node) (trigger : Trigger) (now : Instant) : Option Mail :=
  match node.action, trigger with
  | .email mail, .enter => if c.state.entering then some mail else none
  | .email mail, .timer => if c.state = .waitingDelay ∧ c.dueAt now then some mail else none
  | _, _ => none

namespace Change

theorem on_tryCatch {α : Type} (c : Change α) (f : Fault → Change α) (w : World) :
    (tryCatch c f).on w = match c.on w with
      | (.ok a, w) => (.ok a, w)
      | (.error x, w) => (f x).on w := by
  simp only [on, ExceptT.run, StateT.run, tryCatch, tryCatchThe, MonadExceptOf.tryCatch,
    ExceptT.tryCatch, ExceptT.mk, bind, StateT.bind]
  rcases c w with ⟨a | a, w⟩ <;> rfl

theorem on_map {α β : Type} (f : α → β) (c : Change α) (w : World) :
    (f <$> c).on w = ((c.on w).1.map f, (c.on w).2) := by
  rw [map_eq_pure_bind, on_bind]
  rcases c.on w with ⟨a | a, v⟩ <;> rfl

/-- A change whose clash means that nothing was done. -/
def hushed (c : Change Outcome) : Change Outcome :=
  tryCatch c fun
    | .clash _ => return .ignored
    | e => throw e

/-- A hushed change leads to the same world. -/
theorem hushed_snd (c : Change Outcome) (w : World) : ((hushed c).on w).2 = (c.on w).2 := by
  unfold hushed
  rw [on_tryCatch]
  rcases c.on w with ⟨x | o, v⟩
  · cases x <;> rfl
  · rfl

/-- Runs the step of a cursor at which no mail is due. -/
def handle (g : Graph) (c : Cursor) (node : Node) (trigger : Trigger) (now : Instant) :
    Change Outcome :=
  match node.action, trigger with
  | .delay wait, .enter =>
    if c.state.entering then scheduleDelay c node wait now else return .ignored
  | .delay _, .timer =>
    if c.state = .waitingDelay ∧ c.dueAt now then advance g c node .next "delay_elapsed" now
    else return .ignored
  | .condition k, .enter =>
    if c.state.entering then enterCondition g c node k now else return .ignored
  | .condition k, .timer =>
    if c.state = .waitingCondition then resolve g c node k .timer now else return .ignored
  | .condition k, .event e =>
    if c.state = .waitingCondition then observe g c node k e now else return .ignored
  | .goal _, .enter => if c.state.entering then reachGoal c node now else return .ignored
  | _, _ => return .ignored

/-- Runs the step of a cursor up to its mail. -/
def openStep (g : Graph) (c : Cursor) (node : Node) (trigger : Trigger) (now : Instant) :
    Change Opened := do
  match c.mailDue? node trigger now with
  | none => .ended <$> hushed (handle g c node trigger now)
  | some mail =>
    match (← get).leads.find? c.leadId with
    | none => .ended <$> hushed (fail c.key ("unknown lead " ++ c.leadId) now)
    | some lead => return .sends ⟨g, c, node, lead, mail⟩

/-- Runs the step of a cursor up to its mail, or cancels the cursor when its campaign is halted. -/
def opening (key : CursorKey) (trigger : Trigger) (now : Instant) : Change Opened := do
  let c ← cursor key
  let w ← get
  if c.state.terminal then return .ended .ignored
  else if (w.status c.campaignId).halts then do
    discard <| cancel key "campaign halted" now
    return .ended (.finished .canceled)
  else
    let g ← need (.missing (.flowVersion key.flowId)) (w.flows.find? key.flowId)
    match g.node? c.nodeId with
    | none => .ended <$> fail key ("node " ++ c.nodeId ++ " not in flow version") now
    | some node => openStep g c node trigger now

/-- Settles what came of a mail. -/
def closing (retry : RetryPolicy) (h : Handover) (now : Instant)
    (result : Except SendFault String) : Change Outcome :=
  hushed (settleMail retry h.graph h.cursor h.node now result)

namespace Keeps

variable {R : World → World → Prop} [IsPreorder World R] {g : Graph} {c : Cursor} {node : Node}
  {key : CursorKey} {trigger : Trigger} {now : Instant}

/-- Running the step of a cursor without mail keeps to a relation when every kind of step does. -/
theorem handle (hdelay : ∀ wait, (scheduleDelay c node wait now).Keeps R)
    (hadvance : (advance g c node .next "delay_elapsed" now).Keeps R)
    (henter : ∀ k, (enterCondition g c node k now).Keeps R)
    (hresolve : ∀ k, (resolve g c node k .timer now).Keeps R)
    (hobserve : ∀ k e, (observe g c node k e now).Keeps R)
    (hgoal : (reachGoal c node now).Keeps R) : (handle g c node trigger now).Keeps R := by
  have hguard : ∀ {p : Prop} [Decidable p] {d : Change Outcome}, d.Keeps R →
      (if p then d else return .ignored).Keeps R := by
    intro p _ d h
    split
    · exact h
    · exact pure _
  unfold Change.handle
  split
  · exact hguard (hdelay _)
  · exact hguard hadvance
  · exact hguard (henter _)
  · exact hguard (hresolve _)
  · exact hguard (hobserve _ _)
  · exact hguard hgoal
  · exact pure _

/-- An opening keeps to a relation when ending its cursor does, and every step without mail. -/
theorem opening (hcancel : (cancel key "campaign halted" now).Keeps R)
    (hfail : ∀ key reason, (fail key reason now).Keeps R)
    (hhandle : ∀ g c node, (Change.handle g c node trigger now).Keeps R) :
    (opening key trigger now).Keeps R := by
  have hended : ∀ {d : Change Outcome}, d.Keeps R → (Opened.ended <$> d).Keeps R := fun h w => by
    rw [on_map]
    exact h w
  have hhushed : ∀ {d : Change Outcome}, d.Keeps R → (hushed d).Keeps R := fun h w => by
    rw [hushed_snd]
    exact h w
  refine Keeps.bind (.cursor key) fun c => .get fun w => ?_
  split
  · exact refl_of R w
  · split
    · exact (hcancel.discard.bind fun _ => .pure _) w
    · refine Keeps.bind (.need _ _) (fun g => ?_) w
      split
      · exact hended (hfail _ _)
      · next node _ =>
        unfold openStep
        split
        · exact hended (hhushed (hhandle g c node))
        · refine .get fun w => ?_
          split
          · exact hended (hhushed (hfail _ _)) w
          · exact refl_of R w

end Keeps

end Change

namespace Engine

variable {σ : Type}

theorem ext_on {α : Type} {e e' : Engine σ α} (h : ∀ s, e.on s = e'.on s) : e = e' := funext h

/-- Hands a mail over that was rendered, and settles the answer. -/
def handOn (svc : Services σ) (key : CursorKey) (now : Instant) (h : Handover) (t : Template) :
    Engine σ Outcome := do
  let result ← deliver svc.mailer key h.lead t now
  Change.closing svc.retry h now result

/-- Goes on from an opening: renders the mail, hands it over and settles what came of it, if there is
one. -/
def goOn (svc : Services σ) (key : CursorKey) (now : Instant) : Opened → Engine σ Outcome
  | .ended outcome => return outcome
  | .sends h => do
    let result ← attempt svc key h.mail h.lead now
    Change.closing svc.retry h now result

/-- After the rendering of a mail the fault is settled, or the mail is handed on. -/
theorem on_goOn (svc : Services σ) (key : CursorKey) (now : Instant) (h : Handover)
    (s : Session σ) :
    (∃ e, (goOn svc key now (.sends h)).on s =
      (liftM (Change.closing svc.retry h now (.error e)) : Engine σ Outcome).on
        ((render svc.renderer h.mail h.lead).on s).2) ∨
    ∃ t, (goOn svc key now (.sends h)).on s =
      (handOn svc key now h t).on ((render svc.renderer h.mail h.lead).on s).2 := by
  unfold goOn handOn
  dsimp only
  rw [on_bind]
  rcases on_attempt svc key h.mail h.lead now s with ⟨e, he⟩ | ⟨t, ht⟩
  · exact .inl ⟨e, by rw [he]⟩
  · exact .inr ⟨t, by rw [ht, on_bind]⟩

theorem ignoreClash_lift (c : Change Outcome) :
    ignoreClash (liftM c : Engine σ Outcome) = liftM (Change.hushed c) := by
  refine ext_on fun s => ?_
  unfold ignoreClash Change.hushed
  rw [on_tryCatch, on_lift, on_lift, Change.on_tryCatch]
  rcases c.on s.world with ⟨x | o, v⟩
  · cases x <;> rfl
  · rfl

/-- A step is run with its mail if one is due, and as a change of the world if not. -/
theorem perform_eq (svc : Services σ) (g : Graph) (c : Cursor) (node : Node) (trigger : Trigger)
    (now : Instant) :
    perform svc g c node trigger now = match c.mailDue? node trigger now with
      | some mail => sendMail svc g c node mail now
      | none => liftM (Change.handle g c node trigger now) := by
  have hlift : ∀ (p : Prop) [Decidable p] (d : Change Outcome),
      (if p then liftM d else pure .ignored : Engine σ Outcome) =
        liftM (if p then d else pure .ignored) := by
    intro p _ d
    split <;> rfl
  unfold perform Cursor.mailDue? Change.handle
  cases node.action with
  | email mail => cases trigger <;> dsimp only <;> first | rfl | (split <;> rfl)
  | _ => cases trigger <;> first | rfl | exact hlift _ _

theorem ignoreClash_bind_ok {α : Type} {d : Engine σ α} {f : α → Engine σ Outcome}
    {s t : Session σ} {a : α} (h : d.on s = (.ok a, t)) :
    (ignoreClash (d >>= f)).on s = (ignoreClash (f a)).on t := by
  unfold ignoreClash
  rw [on_tryCatch, on_bind_ok h, on_tryCatch]

/-- A change whose outcome ends the opening is all there is to a step. -/
theorem on_ended (svc : Services σ) (key : CursorKey) (now : Instant) (d : Change Outcome)
    (s : Session σ) :
    (liftM (Opened.ended <$> d) >>= goOn svc key now).on s = (liftM d : Engine σ Outcome).on s := by
  rw [on_bind, on_lift, on_lift, Change.on_map]
  rcases d.on s.world with ⟨x | o, v⟩ <;> rfl

/-- Running a step is its opening, and what follows from it. -/
theorem ignoreClash_perform (svc : Services σ) (g : Graph) (c : Cursor) (node : Node)
    (trigger : Trigger) (now : Instant) :
    ignoreClash (perform svc g c node trigger now) =
      liftM (Change.openStep g c node trigger now) >>=
        goOn svc c.key now := by
  refine ext_on fun s => ?_
  rw [perform_eq]
  unfold Change.openStep
  cases c.mailDue? node trigger now with
  | none =>
    dsimp only
    rw [ignoreClash_lift, on_ended]
  | some mail =>
    dsimp only
    unfold sendMail
    rw [ignoreClash_bind_ok (on_world s), on_bind, on_lift,
      Change.on_bind_ok (Change.on_get s.world), ← on_lift, ← on_bind]
    cases s.world.leads.find? c.leadId with
    | none =>
      dsimp only
      rw [ignoreClash_lift, on_ended]
    | some lead =>
      obtain ⟨result, t, hon⟩ := attempt_ok svc c.key mail lead now s
      dsimp only
      rw [ignoreClash_bind_ok hon, ignoreClash_lift, on_bind_ok (on_lift (pure _) s)]
      show _ = (attempt svc c.key mail lead now >>= _).on s
      rw [on_bind_ok hon]
      rfl

/-- **The halves of a step.** Running the step of a cursor is its opening and, if there is a mail, what
the typesetter and the mailer make of it and the closing. -/
theorem dispatchOnce_eq (svc : Services σ) (key : CursorKey) (trigger : Trigger) (now : Instant) :
    dispatchOnce svc key trigger now =
      liftM (Change.opening key trigger now) >>= goOn svc key now := by
  refine ext_on fun s => ?_
  unfold dispatchOnce Change.opening
  cases hc : s.world.cursors.find? key with
  | none =>
    have hcursor := Change.on_cursor_none hc
    rw [on_bind_error (by rw [on_lift, hcursor]), on_bind_error (by
      rw [on_lift, Change.on_bind_error hcursor])]
  | some c =>
    obtain rfl := CursorStore.key_eq_of_find? hc
    have hcursor := Change.on_cursor_some hc
    rw [on_bind_ok (by rw [on_lift, hcursor]), on_bind_ok (on_world s), on_bind, on_lift,
      Change.on_bind_ok hcursor, Change.on_bind_ok (Change.on_get s.world), ← on_lift, ← on_bind]
    by_cases ht : c.state.terminal = true
    · rw [if_pos ht, if_pos ht]
      rfl
    · rw [if_neg ht, if_neg ht]
      by_cases hst : (s.world.status c.campaignId).halts = true
      · rw [if_pos hst, if_pos hst, on_bind, on_discard, on_lift, on_bind, on_lift, Change.on_bind,
          Change.on_discard]
        rcases (Change.cancel c.key "campaign halted" now).on s.world with ⟨x | b, v⟩ <;> rfl
      · rw [if_neg hst, if_neg hst]
        cases hg : s.world.flows.find? c.key.flowId with
        | none => rfl
        | some g =>
          unfold execute
          rw [on_bind_ok (by rw [on_lift, Change.on_need_some]),
            on_bind_ok (by rw [on_lift, hcursor]), if_neg ht, on_bind, on_lift,
            Change.on_bind_ok (Change.on_need_some _ g s.world), ← on_lift, ← on_bind]
          cases g.node? c.nodeId with
          | none => exact (on_ended svc c.key now _ s).symm
          | some node => exact congrArg (·.on s) (ignoreClash_perform svc g c node trigger now)

end Engine

end MailCampaign
