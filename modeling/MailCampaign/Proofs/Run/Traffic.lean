import MailCampaign.Proofs.Engine.Posted
import MailCampaign.Proofs.Run.Race

/-!
# Traffic at an engine

While a template is rendered and while the mailer is at work on a mail, anything may be asked of the
engine: the typesetter and the mailer themselves may call it, and others may. Only the slot of the cursor
whose mail is under way is taken. So operations fall into pieces, and the pieces of any number of them may
come in any order, those of the dispatches of one tick too: errands, which take no slot and send no mail,
and steps of cursors, which end at once or come to a mail that is rendered, handed over and answered
later. What the engine does on its own, one operation after another and one cursor of a tick after another,
is one way for the traffic to go (`Operation.perform_traffic`).

1. A mail that is under way was due in an earlier world, and its cursor took no turn since
   (`Traffic.Orderly`). So its closing finds the cursor as it was read, or counted on, or canceled.
2. Every move is therefore a course of the world, and a cursor that ended stays as it is along courses.
-/

namespace MailCampaign

/-- Work that takes the slot of no cursor. Operations that send no mail are done at once; of the others
these are the parts outside of the steps of cursors. -/
inductive Errand where
  | activate (campaign : Uuid) (document : Document) (now : Instant)
  | pause (campaign : Uuid) (now : Instant)
  | cancel (campaign : Uuid) (now : Instant)
  | resume (campaign : Uuid)
  | prune (ttlHours : UInt64) (now : Instant)
  | halt (e : Engagement) (now : Instant)
  | admission (campaign : Uuid) (lead : Lead) (now : Instant)
  | receive (e : Engagement) (now : Instant)
  | count (e : Engagement) (only : Option CursorKey) (now : Instant)
  | settle (key : String)

namespace Errand

/-- The world after an errand, whatever it answers. -/
def done (w : World) : Errand → World
  | activate campaign document now => ((Change.activate campaign document now).on w).2
  | pause campaign now => ((Change.pause campaign now).on w).2
  | cancel campaign now => ((Change.cancelCampaign campaign now).on w).2
  | resume campaign => ((Change.resume campaign).on w).2
  | prune ttlHours now => ((Change.prune ttlHours now).on w).2
  | halt e now => ((Change.ingestHalting e now).on w).2
  | admission campaign lead now => ((Engine.addLead campaign lead now).on w).2
  | receive e now => ((Change.receive e now).on w).2
  | count e only now => w.count e only now
  | settle key => ((Change.settle key).on w).2

/-- An id that is drawn for a version is not the id of another version. -/
def Fresh (w : World) : Errand → Prop
  | activate _ _ _ => w.flows.find? (Uuid.ofNat w.nextId) = none
  | _ => True

end Errand

/-- How far the mail of a step is. -/
inductive Stage where
  /-- Its template is being rendered. -/
  | rendering
  /-- The mailer is at work on it. -/
  | sending
deriving DecidableEq

/-- A mail that is under way, with the cursor whose slot is taken until it is settled. -/
structure Parcel where
  key : CursorKey
  handover : Handover
  now : Instant
  stage : Stage

/-- The mail as the mailer gets it. -/
def Parcel.sent (p : Parcel) : Parcel := { p with stage := .sending }

/-- A mail is under way for the same cursor after it was rendered. -/
theorem Parcel.key_of_origin {p q : Parcel} (h : p = q ∨ p = q.sent) : q.key = p.key := by
  rcases h with rfl | rfl <;> rfl

/-- A world with the mails that are under way. -/
structure Traffic where
  world : World
  out : List Parcel

namespace Traffic

/-- Nothing has happened yet. -/
def start (firstId : Nat) : Traffic := ⟨World.empty firstId, []⟩

/-- Nobody has the slot of a cursor. -/
def Free (t : Traffic) (key : CursorKey) : Prop := ∀ p ∈ t.out, p.key ≠ key

/-- What may happen next, with the mail for which the mailer is called in it, if it is. -/
inductive Move (retry : RetryPolicy) (t : Traffic) : Option Parcel → Traffic → Prop
  /-- An errand is done. -/
  | errand (e : Errand) : e.Fresh t.world → Move retry t none { t with world := e.done t.world }
  /-- A cursor runs a step without mail. -/
  | ran {key : CursorKey} {trigger : Trigger} {now : Instant} {r : Except Fault Outcome} {w : World} :
      t.Free key → (Change.opening key trigger now).on t.world = (r.map .ended, w) →
      Move retry t none { t with world := w }
  /-- A cursor comes to a mail whose text is at hand. It keeps its slot, and the mailer is called. -/
  | handed {key : CursorKey} {trigger : Trigger} {now : Instant} {h : Handover} {w : World} :
      t.Free key → (Change.opening key trigger now).on t.world = (.ok (.sends h), w) →
      h.mail.template = none →
      Move retry t (some ⟨key, h, now, .sending⟩) ⟨w, ⟨key, h, now, .sending⟩ :: t.out⟩
  /-- A cursor comes to a mail with a stored template. It keeps its slot, and the typesetter is asked. -/
  | asked {key : CursorKey} {trigger : Trigger} {now : Instant} {h : Handover} {w : World} :
      t.Free key → (Change.opening key trigger now).on t.world = (.ok (.sends h), w) →
      h.mail.template ≠ none → Move retry t none ⟨w, ⟨key, h, now, .rendering⟩ :: t.out⟩
  /-- A template was rendered, and the mailer is called. -/
  | rendered {p : Parcel} : p ∈ t.out → p.stage = .rendering →
      Move retry t (some p.sent) ⟨t.world, p.sent :: t.out.filter fun q => q.key ≠ p.key⟩
  /-- The mailer takes a mail. -/
  | taken {p : Parcel} (mail : Template) (result : Except SendFault String) : p ∈ t.out →
      p.stage = .sending →
      Move retry t none
        { t with world := t.world.emit (.submission ⟨p.handover.lead, mail, result⟩) }
  /-- The mailer answers, or a template was not rendered, and the step is settled with that. -/
  | answered {p : Parcel} (answer : Except SendFault String) : p ∈ t.out →
      (p.stage = .rendering → ∃ e, answer = .error e) →
      Move retry t none ⟨((Change.closing retry p.handover p.now answer).on t.world).2,
        t.out.filter fun q => q.key ≠ p.key⟩

/-- Something happens next. -/
def Step (retry : RetryPolicy) (t t' : Traffic) : Prop := ∃ call, t.Move retry call t'

/-- Whatever may happen, any number of times. -/
abbrev Goes (retry : RetryPolicy) : Traffic → Traffic → Prop := Relation.ReflTransGen (Step retry)

end Traffic

/-! ## Moves are courses -/

/-- The cursors that are not stored may take turns. -/
def Scope.newcomers (w : World) : Scope := ⟨fun key => w.cursors.find? key = none, False⟩

/-- An errand takes a course in which only a cursor that is new takes turns. -/
theorem Errand.course (retry : RetryPolicy) {w : World} (e : Errand) (hfresh : e.Fresh w) :
    w.Course retry (.newcomers w) (e.done w) := by
  cases e with
  | activate campaign document now =>
    exact Change.activate_course retry _ campaign document now hfresh
  | pause campaign now => exact Change.pause_follows campaign now w
  | cancel campaign now => exact Change.cancelCampaign_follows campaign now w
  | resume campaign => exact Change.resume_follows campaign w
  | prune ttlHours now => exact Change.prune_follows ttlHours now w
  | halt e now => exact Change.ingestHalting_follows e now w
  | admission campaign lead now =>
    show w.Course retry _ ((Engine.addLead campaign lead now).on w).2
    rcases Engine.addLead_on retry campaign lead now w with
      ⟨x, -, h⟩ | ⟨key, c, g, v, h, hv, -, -, hnew⟩ <;> rw [h]
    exact hv.mono ⟨fun k hk => hk ▸ hnew, False.elim⟩
  | receive e now => exact Change.receive_follows e now w
  | count e only now => exact World.count_course w e only now
  | settle key => exact Change.settle_follows key w

namespace Traffic

variable {retry : RetryPolicy} {t t' : Traffic} {call : Option Parcel}

/-- A mail is under way after a move because a cursor has come to it, or it was under way before. -/
theorem Move.origin (h : t.Move retry call t') {p : Parcel} (hp : p ∈ t'.out) :
    (t.Free p.key ∧ (p.stage = .rendering → p.handover.mail.template ≠ none) ∧ ∃ trigger,
      (Change.opening p.key trigger p.now).on t.world = (.ok (.sends p.handover), t'.world)) ∨
    ∃ q ∈ t.out, p = q ∨ p = q.sent := by
  cases h with
  | errand | ran | taken => exact .inr ⟨p, hp, .inl rfl⟩
  | answered => exact .inr ⟨p, List.mem_of_mem_filter hp, .inl rfl⟩
  | rendered hq =>
    rcases List.mem_cons.1 hp with rfl | hp
    · exact .inr ⟨_, hq, .inr rfl⟩
    · exact .inr ⟨p, List.mem_of_mem_filter hp, .inl rfl⟩
  | handed hfree hon =>
    rcases List.mem_cons.1 hp with rfl | hp
    · exact .inl ⟨hfree, fun hstage => (by cases hstage), _, hon⟩
    · exact .inr ⟨p, hp, .inl rfl⟩
  | asked hfree hon htemplate =>
    rcases List.mem_cons.1 hp with rfl | hp
    · exact .inl ⟨hfree, fun _ => htemplate, _, hon⟩
    · exact .inr ⟨p, hp, .inl rfl⟩

/-- Every mail that is under way was due in a world from which the present one follows, and its cursor
took no turn since. -/
def Orderly (retry : RetryPolicy) (t : Traffic) : Prop :=
  ∀ p ∈ t.out, ∃ u : World, p.handover.Due p.key p.now u ∧ u.Course retry (.except p.key) t.world

/-- The cursor of a mail that is under way is stored. -/
theorem Orderly.stored (ht : t.Orderly retry) {p : Parcel} (hp : p ∈ t.out) :
    t.world.cursors.find? p.key ≠ none := by
  obtain ⟨u, hdue, hcourse⟩ := ht p hp
  obtain ⟨d, hd, -⟩ := hcourse.stored hdue.stored
  rw [hd]
  nofun

/-- A move is a course of the world in which a cursor takes no turn if a mail of it is under way before and
after. -/
theorem Move.course (ht : t.Orderly retry) (h : t.Move retry call t') :
    ∃ scope : Scope, t.world.Course retry scope t'.world ∧
      ∀ p ∈ t'.out, ∀ q ∈ t.out, q.key = p.key → ¬ scope.turns p.key := by
  cases h with
  | errand e hfresh => exact ⟨_, e.course retry hfresh, fun p _ q hq hkey => hkey ▸ ht.stored hq⟩
  | @ran key trigger now r w hfree hon =>
    have hw := Change.opening_course retry key trigger now t.world
    rw [hon] at hw
    exact ⟨_, hw, fun p _ q hq hkey hturns => hfree q hq (hkey.trans hturns)⟩
  | @handed key trigger now h w hfree hon | @asked key trigger now h w hfree hon =>
    have hw := Change.opening_course retry key trigger now t.world
    rw [hon] at hw
    exact ⟨_, hw, fun p _ q hq hkey hturns => hfree q hq (hkey.trans hturns)⟩
  | rendered => exact ⟨.idle, .refl, fun _ _ _ _ _ => id⟩
  | taken mail result =>
    exact ⟨Scope.idle.mailing, .single (.mailed _ trivial), fun _ _ _ _ _ => id⟩
  | @answered p answer hp =>
    obtain ⟨u, hdue, hcourse⟩ := ht p hp
    refine ⟨.one p.key,
      Change.closing_course hdue (Scope.not_turns_except p.key) hcourse answer, fun p' hp' _ _ _ => ?_⟩
    exact of_decide_eq_true (p := p'.key ≠ p.key) (List.mem_filter.1 hp').2

/-- **One move** leaves the mails that are under way in order. -/
theorem Orderly.move (ht : t.Orderly retry) (h : t.Move retry call t') : t'.Orderly retry := by
  obtain ⟨scope, hw, hidle⟩ := h.course ht
  intro p hp
  rcases h.origin hp with ⟨-, -, trigger, hon⟩ | ⟨q, hq, hpq⟩
  · obtain ⟨hworld, hdue⟩ := Change.opening_sends hon
    exact ⟨t.world, hdue, by rw [hworld]⟩
  · obtain ⟨u, hdue, hcourse⟩ := ht q hq
    have hkey := Parcel.key_of_origin hpq
    have hwithin : scope.Within (.except q.key) :=
      ⟨fun k hk he => hidle p hp q hq hkey (hkey ▸ he ▸ hk), fun _ => trivial⟩
    have hlater := hcourse.trans (hw.mono hwithin)
    rcases hpq with rfl | rfl
    · exact ⟨u, hdue, hlater⟩
    · exact ⟨u, hdue, hlater⟩

theorem Orderly.goes (ht : t.Orderly retry) (h : t.Goes retry t') : t'.Orderly retry := by
  induction h with
  | refl => exact ht
  | tail _ h ih =>
    obtain ⟨_, hmove⟩ := h
    exact ih.move hmove

/-- Traffic is a course of the world. -/
theorem Goes.course (ht : t.Orderly retry) (h : t.Goes retry t') :
    t.world.Course retry Scope.all.mailing t'.world := by
  induction h with
  | refl => exact .refl
  | tail h hmove ih =>
    obtain ⟨_, hmove⟩ := hmove
    obtain ⟨scope, hw, -⟩ := hmove.course (ht.goes h)
    exact ih.trans (hw.mono ⟨fun _ _ => trivial, fun _ => trivial⟩)

/-- Nothing is under way. -/
theorem orderly_idle (w : World) : (⟨w, []⟩ : Traffic).Orderly retry := fun _ hp =>
  absurd hp List.not_mem_nil

end Traffic

/-! ## Operations are traffic -/

namespace Session

variable {σ : Type}

/-- Traffic leads from the world of a session to that of another, and no mail is under way before or
after. -/
def Goes (retry : RetryPolicy) : Session σ → Session σ → Prop :=
  Worlds fun w v => Traffic.Goes retry ⟨w, []⟩ ⟨v, []⟩

instance (retry : RetryPolicy) : IsPreorder (Session σ) (Goes retry) where
  refl := fun _ => .refl
  trans := fun _ _ _ => .trans

end Session

namespace Engine

variable {σ : Type} {svc : Services σ} {retry : RetryPolicy} {now : Instant}

/-- The interruptions of a delivery are errands that are done while its mail is out. -/
theorem interruptions_traffic (mailer : Mailer σ) (lead : Lead) (out : List Parcel)
    (l : List Interruption) (s : Session σ) :
    Traffic.Goes retry ⟨s.world, out⟩ ⟨(l.foldl (disturbed mailer lead now) s).world, out⟩ := by
  induction l generalizing s with
  | nil => exact .refl
  | cons i rest ih =>
    refine .head ⟨none, ?_⟩ (ih _)
    show Traffic.Move retry _ none ⟨((interruption lead now i).on s.world).2, out⟩
    cases i with
    | pause campaign =>
      rw [interruption, Change.on_discard]
      exact .errand (.pause campaign now) trivial
    | cancel campaign =>
      rw [interruption, Change.on_discard]
      exact .errand (.cancel campaign now) trivial
    | unsubscribe campaign key =>
      rw [interruption, Change.on_discard]
      exact .errand (.halt (unsubscription lead.id campaign key now) now) trivial
    | unsubscribeOther leadId campaign key =>
      rw [interruption, Change.on_discard]
      exact .errand (.halt (unsubscription leadId campaign key now) now) trivial

/-- The mailer takes a mail that is out, and errands are done meanwhile. -/
theorem deliver_traffic (mailer : Mailer σ) (mail : Template) {p : Parcel} (hp : p.stage = .sending)
    (s : Session σ) :
    Traffic.Goes retry ⟨s.world, [p]⟩
      ⟨((deliver mailer p.key p.handover.lead mail p.now).on s).2.world, [p]⟩ := by
  let looked := looked mailer (.call p.key p.now) s
  have htaken : Traffic.Goes retry ⟨s.world, [p]⟩
      ⟨(handedOver mailer p.handover.lead mail looked).world, [p]⟩ :=
    .single ⟨none, .taken mail _ (List.mem_singleton_self p) hp⟩
  exact htaken.trans (interruptions_traffic mailer p.handover.lead _ _ _)

/-- What is left when the only mail that is under way is settled. -/
theorem filter_settled (p q : Parcel) (hkey : q.key = p.key) :
    [q].filter (fun r => r.key ≠ p.key) = [] := by
  simp [hkey]

/-- A mail that is to be rendered is settled without having been sent, or the mailer is called for it. A
mail whose text is at hand is out as the cursor comes to it. -/
theorem attempt_traffic (svc : Services σ) {key : CursorKey} {trigger : Trigger} {h : Handover}
    {s : Session σ} (hon : (Change.opening key trigger now).on s.world = (.ok (.sends h), s.world)) :
    ∃ answer u, (attempt svc key h.mail h.lead now).on s = (.ok answer, u) ∧
      ∃ p : Parcel, p.key = key ∧ p.handover = h ∧ p.now = now ∧
        (p.stage = .rendering → ∃ e, answer = .error e) ∧
        Traffic.Goes svc.retry ⟨s.world, []⟩ ⟨u.world, [p]⟩ := by
  let p : Parcel := ⟨key, h, now, .rendering⟩
  have hfree : Traffic.Free ⟨s.world, []⟩ key := fun _ hq => absurd hq List.not_mem_nil
  have hworld := world_render svc.renderer h.mail h.lead s
  have hout : ∀ mail : Template, Traffic.Goes svc.retry ⟨s.world, [p.sent]⟩
      ⟨((deliver svc.mailer key h.lead mail now).on
        ((render svc.renderer h.mail h.lead).on s).2).2.world, [p.sent]⟩ := fun mail => by
    have hdeliver : Traffic.Goes svc.retry _ _ := deliver_traffic svc.mailer mail (p := p.sent) rfl
      ((render svc.renderer h.mail h.lead).on s).2
    rwa [hworld] at hdeliver
  cases htemplate : h.mail.template with
  | none =>
    have hhanded : Traffic.Goes svc.retry ⟨s.world, []⟩ ⟨s.world, [p.sent]⟩ :=
      .single ⟨_, .handed hfree hon htemplate⟩
    rcases on_attempt svc key h.mail h.lead now s with ⟨e, he⟩ | ⟨t, ht⟩
    · exact ⟨_, _, he, p.sent, rfl, rfl, rfl, fun _ => ⟨e, rfl⟩, by rw [hworld]; exact hhanded⟩
    · exact ⟨_, _, ht, p.sent, rfl, rfl, rfl, fun h => (by cases h), hhanded.trans (hout t)⟩
  | some name =>
    have hasked : Traffic.Goes svc.retry ⟨s.world, []⟩ ⟨s.world, [p]⟩ :=
      .single ⟨_, .asked hfree hon (by rw [htemplate]; exact Option.some_ne_none name)⟩
    rcases on_attempt svc key h.mail h.lead now s with ⟨e, he⟩ | ⟨t, ht⟩
    · exact ⟨_, _, he, p, rfl, rfl, rfl, fun _ => ⟨e, rfl⟩, by rw [hworld]; exact hasked⟩
    · have hrendered : Traffic.Move svc.retry ⟨s.world, [p]⟩ (some p.sent) _ :=
        .rendered (List.mem_singleton_self p) rfl
      rw [filter_settled p p rfl] at hrendered
      exact ⟨_, _, ht, p.sent, rfl, rfl, rfl, fun h => (by cases h),
        (hasked.tail ⟨_, hrendered⟩).trans (hout t)⟩

/-- A step of a cursor: it ends at once, or its mail goes its way and is settled. -/
theorem dispatchOnce_traffic (key : CursorKey) (trigger : Trigger) :
    (dispatchOnce svc key trigger now).Keeps (Session.Goes svc.retry) := by
  intro s
  have hfree : Traffic.Free ⟨s.world, []⟩ key := fun _ hp => absurd hp List.not_mem_nil
  rw [dispatchOnce_eq, on_bind, on_lift]
  rcases hopen : (Change.opening key trigger now).on s.world with ⟨x | outcome | h, v⟩
  · exact .single ⟨_, .ran (r := .error x) hfree hopen⟩
  · exact .single ⟨_, .ran (r := .ok outcome) hfree hopen⟩
  · obtain rfl := (Change.opening_sends hopen).1
    obtain ⟨answer, u, hattempt, p, rfl, rfl, rfl, hfault, hgoes⟩ :=
      attempt_traffic svc hopen
    have hanswered : Traffic.Move svc.retry ⟨u.world, [p]⟩ none _ :=
      .answered answer (List.mem_singleton_self p) hfault
    rw [filter_settled p p rfl] at hanswered
    show s.Goes svc.retry
      ((attempt svc p.key p.handover.mail p.handover.lead p.now >>= fun result => _).on s).2
    rw [on_bind_ok hattempt]
    exact hgoes.tail ⟨_, hanswered⟩

theorem dispatch_traffic (trigger : Trigger) (key : CursorKey) :
    (dispatch svc key trigger now).Keeps (Session.Goes svc.retry) :=
  .dispatch (dispatchOnce_traffic key) trigger

/-- A change that is an errand. -/
theorem errand_traffic {α : Type} {c : Change α} (e : Errand) (hfresh : ∀ w, e.Fresh w)
    (h : ∀ w, (c.on w).2 = e.done w) : (liftM c : Engine σ α).Keeps (Session.Goes retry) := fun s => by
  show Traffic.Goes retry ⟨s.world, []⟩ ⟨(c.on s.world).2, []⟩
  rw [h]
  exact .single ⟨_, .errand e (hfresh _)⟩

end Engine

/-- What the engine does for an operation is traffic. -/
theorem Operation.perform_traffic {σ : Type} {svc : Services σ} (op : Operation) {s : Session σ}
    (hfresh : op.Fresh s.world) : s.Goes svc.retry ((op.perform svc).on s).2 := by
  cases op with
  | activate campaign document now =>
    unfold perform
    rw [Engine.on_lift, Change.on_discard]
    exact .single ⟨_, .errand (.activate campaign document now) hfresh⟩
  | enroll campaign lead now =>
    have hcursor (key : CursorKey) : (liftM (Change.cursor key) : Engine σ Cursor).Keeps
        (Session.Goes svc.retry) := Engine.worlds_lift (.cursor key)
    exact (Engine.Keeps.enroll (Engine.errand_traffic (.admission campaign lead now) (fun _ => trivial)
      fun _ => rfl) (Engine.dispatch_traffic .enter) hcursor).discard s
  | ingest e now =>
    have hdone := fun _ : World => trivial
    exact (Engine.Keeps.ingest (Engine.errand_traffic (.halt e now) hdone fun _ => rfl)
      (Engine.errand_traffic (.receive e now) hdone fun _ => rfl)
      (Engine.errand_traffic (.count e none now) hdone fun _ => rfl)
      (Engine.errand_traffic (.settle e.key) hdone fun _ => rfl)
      (Engine.dispatch_traffic (.event e))).discard s
  | dispatch key trigger now => exact (Engine.dispatch_traffic trigger key).discard s
  | tick batchSize now =>
    exact (Engine.Keeps.tick (Engine.dispatch_traffic .timer) batchSize).discard s
  | pause campaign now =>
    exact Engine.errand_traffic (.pause campaign now) (fun _ => trivial) (fun _ => by
      rw [Change.on_discard]; rfl) s
  | cancel campaign now =>
    exact Engine.errand_traffic (.cancel campaign now) (fun _ => trivial) (fun _ => by
      rw [Change.on_discard]; rfl) s
  | resume campaign =>
    exact Engine.errand_traffic (.resume campaign) (fun _ => trivial) (fun _ => rfl) s
  | prune ttlHours now =>
    exact Engine.errand_traffic (.prune ttlHours now) (fun _ => trivial) (fun _ => by
      rw [Change.on_discard]; rfl) s
  | recover now => exact (Engine.Keeps.recover (Engine.dispatch_traffic .enter)).discard s

/-- A run is traffic. -/
theorem Run.traffic {σ : Type} {svc : Services σ} {allowed : Fault → Prop}
    {s : Session (σ × List Moment)} (h : Run svc allowed s) :
    ∃ n, (Traffic.start n).Goes svc.retry ⟨s.world, []⟩ := by
  induction h with
  | start firstId mailer => exact ⟨firstId, .refl⟩
  | @step s op _ hfresh _ ih =>
    obtain ⟨n, hs⟩ := ih
    have hperform : s.Goes svc.recording.retry ((op.perform svc.recording).on s).2 :=
      op.perform_traffic hfresh
    exact ⟨n, hs.trans hperform⟩

/-! ## Cursors that ended -/

namespace World

variable {policy : RetryPolicy} {scope : Scope} {w v : World} {key : CursorKey} {c : Cursor} {n : Nat}

/-- A cursor is stored just so, and nothing will wake it. -/
structure AtRest (w : World) (key : CursorKey) (c : Cursor) : Prop where
  stored : w.cursors.find? key = some c
  idle : ∀ t ∈ w.cursors.timers, t.key ≠ key

/-- A cursor that ended has no timer. -/
theorem atRest_of_terminal (hw : (empty n).Course policy scope w)
    (hc : w.cursors.find? key = some c) (ht : c.state.terminal = true) : w.AtRest key c where
  stored := hc
  idle := by
    intro t hmem hkey
    have hexact : w.cursors.TimersExact := hw.timersExact CursorStore.timersExact_empty
    have hsound : w.Sound := hw.sound (sound_empty n)
    obtain ⟨d, hd, htimer⟩ := (hexact.mem_iff t).1 hmem
    obtain rfl : d = c := Option.some.inj ((hkey ▸ hd).symm.trans hc)
    have hnext := (Cursor.timer?_eq_some_iff.1 htimer).1
    rw [(hsound key d hc).nextRun_eq_none (CursorState.waiting_of_terminal ht)] at hnext
    cases hnext

end World

/-- **Cursors that ended stay as they are.** From the moment at which a run or any traffic has ended a
cursor, it is stored with the same fields and without a timer, whatever happens next. -/
theorem ended_stays {σ : Type} (svc : Services σ) (allowed : Fault → Prop) {key : CursorKey}
    {c : Cursor} (ht : c.state.terminal = true) :
    (∀ s, Run svc allowed s → ∀ later m earlier, s.moments = later ++ m :: earlier →
      m.world.cursors.find? key = some c → ∀ m' ∈ later ++ [m], m'.world.AtRest key c) ∧
    ∀ n t, (Traffic.start n).Goes svc.retry t → t.world.cursors.find? key = some c →
      ∀ t', t.Goes svc.retry t' → t'.world.AtRest key c := by
  constructor
  · intro s hrun later m earlier hsplit hc m' hm'
    obtain ⟨n, hrec⟩ := hrun.recorded
    have hmem : m' ∈ s.moments := by
      rw [hsplit]
      exact (List.mem_append.1 hm').elim (List.mem_append_left _) fun h =>
        List.mem_append_right _ (List.mem_singleton.1 h ▸ List.mem_cons_self)
    refine World.atRest_of_terminal (hrec.between m' hmem).1 ?_ ht
    rcases List.mem_append.1 hm' with hlater | hself
    · exact (hrun.later_of_split hsplit hlater).terminal hc ht
    · rw [List.mem_singleton.1 hself]
      exact hc
  · intro n t hstart hc t' hgoes
    have horderly : t.Orderly svc.retry := (Traffic.orderly_idle _).goes hstart
    have hnow := hstart.course (Traffic.orderly_idle _)
    have hthen := hgoes.course horderly
    exact World.atRest_of_terminal (hnow.trans hthen) (hthen.terminal hc ht) ht

/-- The mail that an opening comes to. -/
def Opened.handover? : Opened → Option Handover
  | .ended _ => none
  | .sends h => some h

/-- An opening that comes to a mail. -/
theorem Change.opening_of_handover? {key : CursorKey} {trigger : Trigger} {now : Instant} {w : World}
    {handover : Handover}
    (h : ((opening key trigger now).on w).1.toOption.bind Opened.handover? = some handover) :
    (opening key trigger now).on w = (.ok (.sends handover), w) := by
  rcases hon : (opening key trigger now).on w with ⟨x | o | handover', v⟩ <;> rw [hon] at h
  · cases h
  · cases h
  · obtain rfl := (opening_sends hon).1
    cases h
    rfl

/-- The campaign of a lead is paused while the first mail of the lead is out, and the mailer accepts the
mail then. In a run the campaign is paused, opened again and canceled. -/
theorem ended_stays_paused :
    (∃ t t' c, (Traffic.start 0).Goes Services.plain.retry t ∧
      t.Goes Services.plain.retry t' ∧ t.out.length = 1 ∧ t'.out = [] ∧
      t.world.cursors.find? ⟨.ofNat 0, "ada"⟩ = some c ∧ c.state = .canceled ∧
      t'.world.AtRest ⟨.ofNat 0, "ada"⟩ c) ∧
    ∃ c, Session.paused.world.cursors.find? ⟨.ofNat 0, "ada"⟩ = some c ∧ c.state = .canceled ∧
      Session.stopped.world.AtRest ⟨.ofNat 0, "ada"⟩ c := by
  let key : CursorKey := ⟨.ofNat 0, "ada"⟩
  let svc := Services.plain
  let before := Session.newcomer.world
  let paused := (Errand.pause (.ofNat 7) .epoch).done before
  constructor
  · have hbefore : (Traffic.start 0).Goes svc.retry ⟨before, []⟩ :=
      (Relation.ReflTransGen.single ⟨_, .errand (.activate (.ofNat 7) .followUp .epoch) rfl⟩).tail
        ⟨_, .errand (.admission (.ofNat 7) .ada .epoch) trivial⟩
    have hstate : (paused.cursors.find? key).map Cursor.state = some .canceled := by decide +kernel
    obtain ⟨c, hc, hcanceled⟩ := Option.map_eq_some_iff.1 hstate
    have hsome : (((Change.opening key .enter .epoch).on before).1.toOption.bind
        Opened.handover?).map (fun h => h.mail.template) = some none := by decide +kernel
    obtain ⟨h, hsends, htemplate⟩ := Option.map_eq_some_iff.1 hsome
    have hon := Change.opening_of_handover? hsends
    let parcel : Parcel := ⟨key, h, .epoch, .sending⟩
    have hfree : Traffic.Free ⟨before, []⟩ key := fun _ hp => absurd hp List.not_mem_nil
    have hhanded : (Traffic.start 0).Goes svc.retry ⟨before, [parcel]⟩ :=
      hbefore.tail ⟨_, .handed hfree hon htemplate⟩
    have hpaused : (Traffic.start 0).Goes svc.retry ⟨paused, [parcel]⟩ :=
      hhanded.tail ⟨_, .errand (.pause (.ofNat 7) .epoch) trivial⟩
    have hanswered : Traffic.Step svc.retry ⟨paused, [parcel]⟩ _ :=
      ⟨_, .answered (.ok "m") (List.mem_singleton_self parcel) fun h => (by cases h)⟩
    exact ⟨_, _, c, hpaused, .single hanswered, rfl, Engine.filter_settled parcel parcel rfl, hc,
      hcanceled, (ended_stays svc (fun _ => True) (by rw [hcanceled]; rfl)).2 0 _ hpaused hc _
        (.single hanswered)⟩
  · have hstate : (Session.paused.world.cursors.find? key).map Cursor.state = some .canceled := by
      decide +kernel
    obtain ⟨c, hc, hcanceled⟩ := Option.map_eq_some_iff.1 hstate
    have hrest := (ended_stays svc (fun _ => True) (by rw [hcanceled]; rfl)).1 _ (run_stopped _)
      [⟨none, Session.stopped.world⟩, ⟨none, Session.resumed.world⟩] _ _ Session.moments_stopped hc
      _ List.mem_cons_self
    exact ⟨c, hc, hcanceled, hrest⟩

end MailCampaign
