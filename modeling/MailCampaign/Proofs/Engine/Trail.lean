import MailCampaign.Proofs.Engine.Keep
import MailCampaign.Proofs.World.Moves

/-!
# The trails of a session

What the engine does to a session it does in small steps: a small step of the world, the rendering of
a mail, the look of the mailer as it is handed over, the handing over, and the look after an
interruption. A mail is only handed over for a running cursor at a mail, in an active campaign: the
step says so. A trail is any number of such steps. While a mail is delivered the world may change, but
no cursor takes a turn.
-/

namespace MailCampaign

variable {σ : Type}

/-- A cursor whose mail may be handed over. -/
structure World.Mailing (w : World) (key : CursorKey) : Prop where
  cursor : ∃ c g node, w.cursors.find? key = some c ∧ w.status c.campaignId = .active ∧
    c.state.terminal = false ∧ c.At w.flows g node ∧ node.Mails

namespace Session

/-- One small step of a session, within a scope. -/
inductive Shift (svc : Services σ) (scope : Scope) (s : Session σ) : Session σ → Prop
  /-- The world changes. -/
  | world {w : World} : s.world.Shift svc.retry scope w → Shift svc scope s { s with world := w }
  /-- A mail is rendered. -/
  | render (mail : Mail) (lead : Lead) :
      Shift svc scope s ((Engine.render svc.renderer mail lead).on s).2
  /-- The mailer looks at the world as the mail of a cursor is handed over. -/
  | call {key : CursorKey} (now : Instant) : s.world.Mailing key →
      Shift svc scope s (Engine.looked svc.mailer (.call key now) s)
  /-- The mailer takes a mail. -/
  | hand (lead : Lead) (mail : Template) :
      Shift svc scope s (Engine.handedOver svc.mailer lead mail s)
  /-- The mailer looks at the world after an interruption. -/
  | look (i : Interruption) : Shift svc scope s (Engine.looked svc.mailer (.interrupted i) s)

/-- Any number of small steps. -/
abbrev Trail (svc : Services σ) (scope : Scope) : Session σ → Session σ → Prop :=
  Relation.ReflTransGen (Shift svc scope)

variable {svc : Services σ} {scope : Scope} {s t : Session σ}

theorem Shift.mono {scope' : Scope} (h : s.Shift svc scope t) (hs : scope.Within scope') :
    s.Shift svc scope' t := by
  cases h with
  | world h => exact .world (h.mono hs)
  | render mail lead => exact .render mail lead
  | call now h => exact .call now h
  | hand lead mail => exact .hand lead mail
  | look i => exact .look i

theorem Trail.mono {scope' : Scope} (h : s.Trail svc scope t) (hs : scope.Within scope') :
    s.Trail svc scope' t := Relation.ReflTransGen.mono (fun _ _ h => Shift.mono h hs) _ _ h

/-- A course of the world is a trail. -/
theorem Trail.of_course {w : World} (h : s.world.Course svc.retry scope w) :
    s.Trail svc scope { s with world := w } := by
  induction h with
  | refl => exact .refl
  | tail _ h ih => exact ih.tail (.world h)

theorem Shift.course (h : s.Shift svc scope t) :
    s.world.Course svc.retry scope.mailing t.world := by
  cases h with
  | world h => exact .single (h.mono scope.within_mailing)
  | render => rw [Engine.world_render]
  | call => exact .refl
  | hand lead mail => exact .single (.mailed _ trivial)
  | look => exact .refl

/-- Along a trail the world takes a course in which mail goes out. -/
theorem Trail.course (h : s.Trail svc scope t) :
    s.world.Course svc.retry scope.mailing t.world := by
  induction h with
  | refl => exact .refl
  | tail _ h ih => exact ih.trans h.course

end Session

namespace Engine

variable {svc : Services σ} {scope : Scope} {α β : Type}

instance : IsPreorder (Session σ) (Session.Trail svc scope) where
  refl := fun _ => .refl
  trans := fun _ _ _ => .trans

/-- An operation that takes a trail within a scope from every session. -/
def Follows (svc : Services σ) (scope : Scope) (e : Engine σ α) : Prop :=
  ∀ s : Session σ, s.Trail svc scope (e.on s).2

namespace Follows

theorem trail {e : Engine σ α} (he : e.Follows svc scope) {s t : Session σ} {r : Except Fault α}
    (hon : e.on s = (r, t)) : s.Trail svc scope t := by
  have hs := he s
  rwa [hon] at hs

theorem pure (a : α) : (pure a : Engine σ α).Follows svc scope := Keeps.pure a

theorem lift {c : Change α} (h : c.Follows svc.retry scope) :
    (liftM c : Engine σ α).Follows svc scope := by
  intro s
  rw [on_lift]
  exact .of_course (h s.world)

theorem bind {e : Engine σ α} {f : α → Engine σ β} (he : e.Follows svc scope)
    (hf : ∀ a, (f a).Follows svc scope) : (e >>= f).Follows svc scope := Keeps.bind he hf

theorem discard {e : Engine σ α} (he : e.Follows svc scope) :
    (discard e).Follows svc scope := Keeps.discard he

theorem mono {e : Engine σ α} {scope' : Scope} (he : e.Follows svc scope)
    (hs : scope.Within scope') : e.Follows svc scope' := fun s => (he s).mono hs

end Follows

/-! ## Deliveries -/

theorem interruption_follows {policy : RetryPolicy} (lead : Lead) (now : Instant)
    (i : Interruption) : (interruption lead now i).Follows policy scope := by
  cases i with
  | pause campaign => exact (Change.pause_follows campaign now).discard
  | cancel campaign => exact (Change.cancelCampaign_follows campaign now).discard
  | unsubscribe campaign key => exact (Change.ingestHalting_follows _ now).discard
  | unsubscribeOther leadId campaign key => exact (Change.ingestHalting_follows _ now).discard

theorem disturbed_trail (lead : Lead) (now : Instant) (s : Session σ) (i : Interruption) :
    s.Trail svc scope (disturbed svc.mailer lead now s i) := by
  have hworld : s.Trail svc scope { s with world := interrupted lead now s.world i } :=
    .of_course (interruption_follows lead now i s.world)
  exact hworld.tail (.look i)

theorem interruptions_trail (lead : Lead) (now : Instant) (l : List Interruption)
    (s : Session σ) : s.Trail svc scope (l.foldl (disturbed svc.mailer lead now) s) := by
  induction l generalizing s with
  | nil => exact .refl
  | cons i rest ih => exact (disturbed_trail lead now s i).trans (ih _)

/-- No mail goes out in an interruption. -/
theorem mails_disturbed (svc : Services σ) (lead : Lead) (now : Instant) (s : Session σ)
    (i : Interruption) : (disturbed svc.mailer lead now s i).world.mails = s.world.mails := by
  have hcourse : s.world.Course svc.retry .idle (interrupted lead now s.world i) :=
    interruption_follows lead now i s.world
  exact hcourse.mails_eq id

theorem mails_interruptions (svc : Services σ) (lead : Lead) (now : Instant)
    (l : List Interruption) (s : Session σ) :
    (l.foldl (disturbed svc.mailer lead now) s).world.mails = s.world.mails := by
  induction l generalizing s with
  | nil => rfl
  | cons i rest ih => exact (ih _).trans (mails_disturbed svc lead now s i)

theorem mails_handedOver (mailer : Mailer σ) (lead : Lead) (mail : Template) (s : Session σ) :
    (handedOver mailer lead mail s).world.mails = s.world.mails + 1 :=
  List.countP_cons_of_pos rfl

/-- A delivery for a cursor whose mail may be handed over succeeds, with whatever result. -/
theorem deliver_on (svc : Services σ) (scope : Scope) {key : CursorKey} (lead : Lead)
    (mail : Template) (now : Instant) {s : Session σ} (hs : s.world.Mailing key) :
    ∃ result t, (deliver svc.mailer key lead mail now).on s = (.ok result, t) ∧
      s.Trail svc scope t ∧ t.world.mails ≤ s.world.mails + 1 := by
  have hcall : s.Trail svc scope (looked svc.mailer (.call key now) s) := .single (.call now hs)
  refine ⟨_, _, rfl, (hcall.tail (.hand lead mail)).trans (interruptions_trail lead now _ _), ?_⟩
  rw [mails_interruptions, mails_handedOver]
  exact Nat.le_refl _

/-- In an attempt no cursor takes a turn. -/
theorem attempt_coursed (svc : Services σ) (key : CursorKey) (mail : Mail) (lead : Lead)
    (now : Instant) (s : Session σ) :
    ∃ answer t, (attempt svc key mail lead now).on s = (.ok answer, t) ∧
      s.world.Course svc.retry Scope.idle.mailing t.world := by
  have hworld := world_render svc.renderer mail lead s
  rcases on_attempt svc key mail lead now s with ⟨e, he⟩ | ⟨text, htext⟩
  · exact ⟨_, _, he, by rw [hworld]⟩
  · let called := looked svc.mailer (.call key now) ((render svc.renderer mail lead).on s).2
    let handed := handedOver svc.mailer lead text called
    have hhanded : s.world.Course svc.retry Scope.idle.mailing handed.world :=
      hworld ▸ .single (.mailed _ trivial)
    exact ⟨_, _, htext, hhanded.trans (interruptions_trail lead now _ handed).course⟩

/-- An attempt at the mail of such a cursor succeeds, with whatever result. -/
theorem attempt_on (svc : Services σ) (scope : Scope) {key : CursorKey} (mail : Mail) (lead : Lead)
    (now : Instant) {s : Session σ} (hs : s.world.Mailing key) :
    ∃ result t, (attempt svc key mail lead now).on s = (.ok result, t) ∧
      s.Trail svc scope t ∧ t.world.mails ≤ s.world.mails + 1 := by
  have hrendered : s.Trail svc scope ((render svc.renderer mail lead).on s).2 :=
    .single (.render mail lead)
  have hworld := world_render svc.renderer mail lead s
  rcases on_attempt svc key mail lead now s with ⟨e, he⟩ | ⟨text, htext⟩
  · exact ⟨_, _, he, hrendered, by rw [hworld]; exact Nat.le_succ _⟩
  · obtain ⟨result, t, hon, ht, hmails⟩ := deliver_on svc scope lead text now (hworld.symm ▸ hs)
    rw [hworld] at hmails
    exact ⟨result, t, htext.trans hon, hrendered.trans ht, hmails⟩

end Engine

end MailCampaign
