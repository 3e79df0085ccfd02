import MailCampaign.Mail.Mailer
import MailCampaign.World.Control

/-!
# The engine

The engine is a world together with the state of a mailer and a typesetter. Only the engine sends mail.
While the mailer is at work, campaigns may be stopped and leads may unsubscribe.
-/

namespace MailCampaign

/-- A world with the state of its mailer and its typesetter. -/
structure Session (σ : Type) where
  world : World
  mailer : σ

/-- What the engine works with. -/
structure Services (σ : Type) where
  mailer : Mailer σ
  renderer : Typesetter σ
  retry : RetryPolicy

/-- An operation of the engine: like a change, with the mailer at hand. -/
abbrev Engine (σ : Type) := ExceptT Fault (StateM (Session σ))

namespace Engine

variable {σ : Type}

/-- Runs an operation. -/
def on {α : Type} (e : Engine σ α) (s : Session σ) : Except Fault α × Session σ := e.run.run s

/-- Runs a change of the world alone. -/
def ofChange {α : Type} (c : Change α) : Engine σ α := ExceptT.mk fun s =>
  let (result, world) := c.on s.world
  (result, { s with world })

instance : MonadLift Change (Engine σ) := ⟨ofChange⟩

@[simp] theorem on_pure {α : Type} (a : α) (s : Session σ) :
    (pure a : Engine σ α).on s = (.ok a, s) := rfl

@[simp] theorem on_throw {α : Type} (e : Fault) (s : Session σ) :
    (throw e : Engine σ α).on s = (.error e, s) := rfl

@[simp] theorem on_lift {α : Type} (c : Change α) (s : Session σ) :
    (liftM c : Engine σ α).on s = ((c.on s.world).1, { s with world := (c.on s.world).2 }) := rfl

theorem on_bind {α β : Type} (e : Engine σ α) (f : α → Engine σ β) (s : Session σ) :
    (e >>= f).on s = match e.on s with
      | (.ok a, s) => (f a).on s
      | (.error x, s) => (.error x, s) := by
  show (match (e s) with | (a, s) => ExceptT.bindCont f a s) = _
  simp only [on, ExceptT.run, StateT.run]
  rcases e s with ⟨a | a, s⟩ <;> rfl

theorem on_bind_ok {α β : Type} {e : Engine σ α} {f : α → Engine σ β} {s t : Session σ} {a : α}
    (h : e.on s = (.ok a, t)) : (e >>= f).on s = (f a).on t := by rw [on_bind, h]

theorem on_bind_error {α β : Type} {e : Engine σ α} {f : α → Engine σ β} {s t : Session σ}
    {x : Fault} (h : e.on s = (.error x, t)) : (e >>= f).on s = (.error x, t) := by rw [on_bind, h]

theorem on_map {α β : Type} (f : α → β) (e : Engine σ α) (s : Session σ) :
    (f <$> e).on s = ((e.on s).1.map f, (e.on s).2) := by
  rw [map_eq_pure_bind, on_bind]
  rcases e.on s with ⟨a | a, t⟩ <;> rfl

theorem on_discard {α : Type} (e : Engine σ α) (s : Session σ) :
    (discard e).on s = ((e.on s).1.map fun _ => ⟨⟩, (e.on s).2) := on_map _ e s

theorem on_tryCatch {α : Type} (e : Engine σ α) (f : Fault → Engine σ α) (s : Session σ) :
    (tryCatch e f).on s = match e.on s with
      | (.ok a, s) => (.ok a, s)
      | (.error x, s) => (f x).on s := by
  simp only [on, ExceptT.run, StateT.run, tryCatch, tryCatchThe, MonadExceptOf.tryCatch,
    ExceptT.tryCatch, ExceptT.mk, bind, StateT.bind]
  rcases e s with ⟨a | a, s⟩ <;> rfl

/-- The world. -/
def world : Engine σ World := ofChange get

@[simp] theorem on_world (s : Session σ) : (world : Engine σ World).on s = (.ok s.world, s) := rfl

/-! ## Deliveries -/

/-- The event of a lead that unsubscribes while a mail is sent. -/
def unsubscription (leadId : String) (campaign : Uuid) (key : String) (now : Instant) : Engagement :=
  ⟨leadId, campaign, .unsubscribed, now, key, {}⟩

/-- What an interruption does. -/
def interruption (lead : Lead) (now : Instant) : Interruption → Change Unit
  | .pause campaign => discard (Change.pause campaign now)
  | .cancel campaign => discard (Change.cancelCampaign campaign now)
  | .unsubscribe campaign key =>
    discard (Change.ingestHalting (unsubscription lead.id campaign key now) now)
  | .unsubscribeOther leadId campaign key =>
    discard (Change.ingestHalting (unsubscription leadId campaign key now) now)

/-- The world after an interruption; a fault in it goes unnoticed. -/
def interrupted (lead : Lead) (now : Instant) (w : World) (i : Interruption) : World :=
  ((interruption lead now i).on w).2

/-- The session after the mailer looked at the world. -/
def looked (mailer : Mailer σ) (scene : Scene) (s : Session σ) : Session σ :=
  { s with mailer := mailer.look s.mailer scene s.world }

/-- The session after an interruption and the look of the mailer that follows. -/
def disturbed (mailer : Mailer σ) (lead : Lead) (now : Instant) (s : Session σ)
    (i : Interruption) : Session σ :=
  looked mailer (.interrupted i) { s with world := interrupted lead now s.world i }

/-- The session after the mailer took a mail. -/
def handedOver (mailer : Mailer σ) (lead : Lead) (mail : Template) (s : Session σ) : Session σ :=
  let (delivery, state) := mailer.send s.mailer lead mail
  ⟨s.world.emit (.submission ⟨lead, mail, delivery.result⟩), state⟩

/-- Hands the mail of a cursor's step to the mailer and goes through what happens meanwhile. -/
def deliver (mailer : Mailer σ) (key : CursorKey) (lead : Lead) (mail : Template) (now : Instant) :
    Engine σ (Except SendFault String) := ExceptT.mk fun s =>
  let s := looked mailer (.call key now) s
  let delivery := (mailer.send s.mailer lead mail).1
  (.ok delivery.result,
    delivery.interruptions.foldl (disturbed mailer lead now) (handedOver mailer lead mail s))

/-- The mail of a step for a lead. Only a stored template is a matter of the typesetter. -/
def render (typesetter : Typesetter σ) (mail : Mail) (lead : Lead) :
    Engine σ (Except SendFault Template) := ExceptT.mk fun s =>
  match mail.template with
  | some name =>
    let (result, state) := typesetter.render (typesetter.look s.mailer s.world) name lead.fields
    (.ok result, { s with mailer := state })
  | none => (.ok (.ok (Template.render ⟨mail.subject, mail.body⟩ lead.fields)), s)

/-- Rendering changes the state of the typesetter alone. -/
@[simp] theorem world_render (typesetter : Typesetter σ) (mail : Mail) (lead : Lead)
    (s : Session σ) : ((render typesetter mail lead).on s).2.world = s.world := by
  unfold render
  cases mail.template <;> rfl

/-- Rendering has a result, be it a fault. -/
theorem on_render (typesetter : Typesetter σ) (mail : Mail) (lead : Lead) (s : Session σ) :
    ∃ result, (render typesetter mail lead).on s =
      (.ok result, ((render typesetter mail lead).on s).2) := by
  unfold render
  cases mail.template <;> exact ⟨_, rfl⟩

/-- Renders the mail of a step and hands it to the mailer. -/
def attempt (svc : Services σ) (key : CursorKey) (mail : Mail) (lead : Lead) (now : Instant) :
    Engine σ (Except SendFault String) := do
  match ← render svc.renderer mail lead with
  | .ok t => deliver svc.mailer key lead t now
  | .error e => return .error e

/-- After the rendering an attempt is over, or the mail is handed over. -/
theorem on_attempt (svc : Services σ) (key : CursorKey) (mail : Mail) (lead : Lead) (now : Instant)
    (s : Session σ) :
    (∃ e, (attempt svc key mail lead now).on s =
      (.ok (.error e), ((render svc.renderer mail lead).on s).2)) ∨
    ∃ t, (attempt svc key mail lead now).on s =
      (deliver svc.mailer key lead t now).on ((render svc.renderer mail lead).on s).2 := by
  obtain ⟨result, hon⟩ := on_render svc.renderer mail lead s
  unfold attempt
  rw [on_bind_ok hon]
  cases result with
  | error e => exact .inl ⟨e, rfl⟩
  | ok t => exact .inr ⟨t, rfl⟩

/-- An attempt has an answer, be it a fault. -/
theorem attempt_ok (svc : Services σ) (key : CursorKey) (mail : Mail) (lead : Lead) (now : Instant)
    (s : Session σ) : ∃ answer t, (attempt svc key mail lead now).on s = (.ok answer, t) := by
  rcases on_attempt svc key mail lead now s with ⟨e, he⟩ | ⟨text, htext⟩
  · exact ⟨_, _, he⟩
  · exact ⟨_, _, htext⟩

/-- Sends the mail of a step to the lead of a cursor. -/
def sendMail (svc : Services σ) (g : Graph) (c : Cursor) (node : Node) (mail : Mail)
    (now : Instant) : Engine σ Outcome := do
  match (← world).leads.find? c.leadId with
  | none => Change.fail c.key ("unknown lead " ++ c.leadId) now
  | some lead => do
    let result ← attempt svc c.key mail lead now
    Change.settleMail svc.retry g c node now result

/-! ## Running a step -/

/-- Runs the step at which a cursor is, if the trigger means anything to it there. -/
def perform (svc : Services σ) (g : Graph) (c : Cursor) (node : Node) (trigger : Trigger)
    (now : Instant) : Engine σ Outcome :=
  match node.action, trigger with
  | .email mail, .enter =>
    if c.state.entering then sendMail svc g c node mail now else return .ignored
  | .email mail, .timer =>
    if c.state = .waitingDelay ∧ c.dueAt now then sendMail svc g c node mail now
    else return .ignored
  | .delay wait, .enter =>
    if c.state.entering then Change.scheduleDelay c node wait now else return .ignored
  | .delay _, .timer =>
    if c.state = .waitingDelay ∧ c.dueAt now then
      Change.advance g c node .next "delay_elapsed" now
    else return .ignored
  | .condition k, .enter =>
    if c.state.entering then Change.enterCondition g c node k now else return .ignored
  | .condition k, .timer =>
    if c.state = .waitingCondition then Change.resolve g c node k .timer now else return .ignored
  | .condition k, .event e =>
    if c.state = .waitingCondition then Change.observe g c node k e now else return .ignored
  | .goal _, .enter =>
    if c.state.entering then Change.reachGoal c node now else return .ignored
  | _, _ => return .ignored

/-- A clash means that the cursor was moved by something else meanwhile. -/
def ignoreClash (act : Engine σ Outcome) : Engine σ Outcome :=
  tryCatch act fun
    | .clash _ => return .ignored
    | e => throw e

/-- Runs the step at which a cursor is. -/
def execute (svc : Services σ) (g : Graph) (key : CursorKey) (trigger : Trigger) (now : Instant) :
    Engine σ Outcome := do
  let c ← Change.cursor key
  if c.state.terminal then return .ignored
  else
    match g.node? c.nodeId with
    | none => Change.fail key ("node " ++ c.nodeId ++ " not in flow version") now
    | some node => ignoreClash (perform svc g c node trigger now)

end Engine

end MailCampaign
