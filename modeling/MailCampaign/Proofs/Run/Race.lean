import MailCampaign.Proofs.Engine.Handover
import MailCampaign.Proofs.Run.Basic

/-!
# Races for a cursor

Any number of dispatches of one cursor may be under way at once. Each runs one step after another,
and has the slot of the cursor from the opening of a step to its closing; the typesetter and the mailer
are at work in between. Whatever does not take the slot may happen at any time: campaigns are paused
and canceled, leads unsubscribe, events are counted, and other cursors go their ways. It all takes
courses in which the cursor takes no turn. A dispatch of the engine that nothing comes in between is
one way for a race to go (`Race.alone`).

1. Only the dispatch that has the slot has a mail out, and the cursor that it read for the mail was
   stored since then but for being canceled or counted on (`Race.Fair.sending`).
2. A mail that was accepted takes the cursor to a later visit, or finds its flow at an end
   (`Change.closing_accepted`). So a later mail that is accepted is for a later visit.
3. What a history tells of a visit is a matter of courses (`World.Accounted`).
-/

namespace MailCampaign

/-- How far a dispatch is. -/
inductive Phase where
  /-- It waits for the slot. -/
  | ready (trigger : Trigger) (now : Instant)
  /-- It has the slot, and its mail is rendered and sent. -/
  | sending (h : Handover) (now : Instant)
  | ended (result : Except Fault Outcome)

/-- How far a dispatch is after a step: a cursor that moved enters its next step. -/
def Phase.after (now : Instant) : Except Fault Outcome → Phase
  | .ok .moved => ready .enter now
  | result => ended result

theorem Phase.after_ne_sending {now now' : Instant} {result : Except Fault Outcome} {h : Handover} :
    after now result ≠ sending h now' := by
  unfold after
  split <;> nofun

/-- Every cursor but one takes turns, and mail goes out. -/
def Scope.except (key : CursorKey) : Scope := ⟨fun k => k ≠ key, True⟩

theorem Scope.not_turns_except (key : CursorKey) : ¬ (Scope.except key).turns key := fun h => h rfl

/-- Dispatches of one cursor that are under way at once. -/
structure Race where
  world : World
  /-- The number of the dispatch that has the slot of the cursor. -/
  slot : Option Nat
  dispatches : List Phase
  /-- The numbers of the visits whose mail was accepted, the latest first. -/
  accepted : List Nat

namespace Race

/-- The visits whose mail was accepted, after an answer. -/
def accept (r : Race) (h : Handover) : Except SendFault String → List Nat
  | .ok _ => h.cursor.visit :: r.accepted
  | .error _ => r.accepted

/-- What may happen next. -/
inductive Move (retry : RetryPolicy) (key : CursorKey) (r : Race) : Race → Prop
  /-- One more dispatch comes. -/
  | came (trigger : Trigger) (now : Instant) : Move retry key r
      { r with dispatches := r.dispatches ++ [.ready trigger now] }
  /-- A dispatch runs a step without mail. -/
  | ran {i : Nat} {trigger : Trigger} {now : Instant} {result : Except Fault Outcome} {w : World} :
      r.slot = none → r.dispatches[i]? = some (.ready trigger now) →
      (Change.opening key trigger now).on r.world = (result.map .ended, w) →
      Move retry key r
        ⟨w, none, r.dispatches.set i (.after now result), r.accepted⟩
  /-- A dispatch comes to a mail and keeps the slot. -/
  | handed {i : Nat} {trigger : Trigger} {now : Instant} {h : Handover} {w : World} :
      r.slot = none → r.dispatches[i]? = some (.ready trigger now) →
      (Change.opening key trigger now).on r.world = (.ok (.sends h), w) →
      Move retry key r ⟨w, some i, r.dispatches.set i (.sending h now), r.accepted⟩
  /-- The mailer answers, or the mail could not be rendered, and the dispatch settles that. -/
  | answered {i : Nat} {h : Handover} {now : Instant} {answer : Except SendFault String}
      {result : Except Fault Outcome} {w : World} :
      r.dispatches[i]? = some (.sending h now) →
      (Change.closing retry h now answer).on r.world = (result, w) →
      Move retry key r
        ⟨w, none, r.dispatches.set i (.after now result), r.accept h answer⟩
  /-- Something happens that does not take the slot. -/
  | outside {w : World} : r.world.Course retry (.except key) w →
      Move retry key r { r with world := w }

/-- Whatever may happen, any number of times. -/
abbrev Goes (retry : RetryPolicy) (key : CursorKey) : Race → Race → Prop :=
  Relation.ReflTransGen (Move retry key)

/-- A race before the first dispatch comes. -/
def start (w : World) : Race := ⟨w, none, [], []⟩

/-- A dispatch has a mail out. -/
def Sending (r : Race) (i : Nat) : Prop := ∃ h now, r.dispatches[i]? = some (.sending h now)

/-! ## What may happen outside -/

section Outside

variable {retry : RetryPolicy} {key : CursorKey} (r : Race)

/-- A change in which no cursor takes a turn may happen at any time. -/
theorem Move.of_follows {α : Type} {c : Change α} (h : c.Follows retry (.except key)) :
    r.Move retry key { r with world := (c.on r.world).2 } := .outside (h r.world)

theorem Move.pause (campaign : Uuid) (now : Instant) : r.Move retry key
    { r with world := ((Change.pause campaign now).on r.world).2 } :=
  .of_follows r (Change.pause_follows campaign now)

theorem Move.cancelCampaign (campaign : Uuid) (now : Instant) : r.Move retry key
    { r with world := ((Change.cancelCampaign campaign now).on r.world).2 } :=
  .of_follows r (Change.cancelCampaign_follows campaign now)

theorem Move.cancel (key' : CursorKey) (reason : String) (now : Instant) :
    r.Move retry key
      { r with world := ((Change.cancel key' reason now).on r.world).2 } :=
  .of_follows r (Change.cancel_follows key' reason now)

theorem Move.ingestHalting (e : Engagement) (now : Instant) : r.Move retry key
    { r with world := ((Change.ingestHalting e now).on r.world).2 } :=
  .of_follows r (Change.ingestHalting_follows e now)

theorem Move.count (e : Engagement) (only : Option CursorKey) (now : Instant) :
    r.Move retry key { r with world := r.world.count e only now } :=
  .outside (World.count_course r.world e only now)

end Outside

end Race

/-! ## Visits with mail -/

namespace World

variable {policy : RetryPolicy} {scope : Scope} {w v : World} {key : CursorKey} {n : Nat}

/-- A visit of the cursor of a key is to a mail. -/
def MailVisit (w : World) (key : CursorKey) (n : Nat) : Prop :=
  ∃ c g node, w.cursors.find? key = some c ∧ w.flows.find? key.flowId = some g ∧
    c.tour[n]? = some node.id ∧ g.node? node.id = some node ∧ node.Mails

/-- A visit of the cursor of a key is over, or the whole flow is. -/
def VisitOver (w : World) (key : CursorKey) (n : Nat) : Prop :=
  ∃ c, w.cursors.find? key = some c ∧ (c.state.terminal = true ∨ n < c.visit)

theorem MailVisit.after (hv : w.MailVisit key n) (hw : w.Accounted)
    (h : w.Course policy scope v) : v.MailVisit key n := by
  obtain ⟨c, g, node, hc, hg, htour, hnode, hmails⟩ := hv
  obtain ⟨d, hd, -, hprefix⟩ := h.tour hw hc
  obtain ⟨hlt, hid⟩ := List.getElem?_eq_some_iff.1 htour
  have htour' : d.tour[n]? = some node.id := by
    rw [List.prefix_iff_getElem?.1 hprefix n hlt, hid]
  exact ⟨d, g, node, hd, h.grows _ _ hg, htour', hnode, hmails⟩

theorem VisitOver.after (hv : w.VisitOver key n) (hw : w.Accounted)
    (h : w.Course policy scope v) : v.VisitOver key n := by
  obtain ⟨c, hc, ht | hlt⟩ := hv
  · exact ⟨c, h.terminal hc ht, .inl ht⟩
  · obtain ⟨d, hd, hle, -⟩ := h.tour hw hc
    exact ⟨d, hd, .inr (Nat.lt_of_lt_of_le hlt hle)⟩

end World

namespace Handover.Due

variable {h : Handover} {key : CursorKey} {now : Instant} {w : World}

/-- A mail that may be handed over is for a visit to a mail. -/
theorem mailVisit (hd : h.Due key now w) : w.MailVisit key h.cursor.visit := by
  have hflow : h.cursor.flowId = key.flowId := congrArg CursorKey.flowId hd.key
  refine ⟨h.cursor, h.graph, h.node, hd.stored, hflow ▸ hd.here.version, ?_, ?_, hd.mails⟩
  · rw [Cursor.tour_visit (Cursor.not_completed_of_running hd.sendable.running), hd.here.nodeId]
  · exact hd.here.nodeId ▸ hd.here.step

/-- It is for a visit that is not over. -/
theorem lt_visit (hd : h.Due key now w) {n : Nat} (hn : w.VisitOver key n) :
    n < h.cursor.visit := by
  obtain ⟨c, hc, hover⟩ := hn
  obtain rfl : c = h.cursor := Option.some.inj (hc.symm.trans hd.stored)
  refine hover.resolve_left fun ht => ?_
  rw [hd.sendable.running] at ht
  cases ht

end Handover.Due

/-! ## The invariant -/

namespace Race

variable {retry : RetryPolicy} {key : CursorKey} {r r' : Race} {w : World}

/-- A mail that is out was due in a world from which the present one follows, and the mails accepted
before were for earlier visits. -/
structure Out (retry : RetryPolicy) (key : CursorKey) (r : Race) (h : Handover) (now : Instant) :
    Prop where
  due : ∃ u : World, u.Accounted ∧ h.Due key now u ∧ u.Course retry (.except key) r.world
  earlier : ∀ n ∈ r.accepted, n < h.cursor.visit

/-- No step is run twice. -/
structure Fair (retry : RetryPolicy) (key : CursorKey) (r : Race) : Prop where
  accounted : r.world.Accounted
  sending : ∀ i h now, r.dispatches[i]? = some (.sending h now) →
    r.slot = some i ∧ r.Out retry key h now
  distinct : r.accepted.Nodup
  accepted : ∀ n ∈ r.accepted, r.world.MailVisit key n ∧ r.world.VisitOver key n

theorem Fair.start (hw : w.Accounted) : (start w).Fair retry key where
  accounted := hw
  sending := fun _ _ _ h => nomatch h
  distinct := .nil
  accepted := fun _ h => absurd h List.not_mem_nil

/-- The mails that were accepted stay so as the world goes on. -/
theorem Fair.accepted_after {scope : Scope} (hr : r.Fair retry key)
    (hw : r.world.Course retry scope w) :
    ∀ n ∈ r.accepted, w.MailVisit key n ∧ w.VisitOver key n := fun n hn =>
  ⟨(hr.accepted n hn).1.after hr.accounted hw, (hr.accepted n hn).2.after hr.accounted hw⟩

/-- While nobody has the slot no mail is out. -/
theorem Fair.not_sending (hr : r.Fair retry key) (hs : r.slot = none) {i : Nat} {h : Handover}
    {now : Instant} : r.dispatches[i]? ≠ some (.sending h now) := by
  intro hi
  have := (hr.sending i h now hi).1
  rw [hs] at this
  cases this

/-- After a dispatch ran its step to the end, no mail is out. -/
theorem Fair.not_sending_set (hr : r.Fair retry key) {i j : Nat} {h : Handover}
    {now now' : Instant} {result : Except Fault Outcome} (hi : r.slot = some i ∨ r.slot = none) :
    (r.dispatches.set i (.after now result))[j]? ≠ some (.sending h now') := by
  intro hj
  by_cases hij : i = j
  · subst hij
    rw [List.getElem?_set_self'] at hj
    obtain ⟨_, -, hphase⟩ := Option.map_eq_some_iff.1 hj
    exact Phase.after_ne_sending hphase
  · rw [List.getElem?_set_ne hij] at hj
    have hslot := (hr.sending j h now' hj).1
    rcases hi with hi | hi <;> rw [hi] at hslot
    · exact hij (Option.some.inj hslot)
    · cases hslot

/-- **One move.** Whatever happens next, no step is run twice. -/
theorem Fair.move (hr : r.Fair retry key) (h : r.Move retry key r') :
    r'.Fair retry key := by
  cases h with
  | came trigger now =>
    refine ⟨hr.accounted, fun i h now' hi => ?_, hr.distinct, hr.accepted⟩
    rw [List.getElem?_append] at hi
    split at hi
    · obtain ⟨hslot, hout⟩ := hr.sending i h now' hi
      exact ⟨hslot, hout.due, hout.earlier⟩
    · rw [List.getElem?_singleton] at hi
      split at hi <;> cases hi
  | @ran i trigger now result w hs hi hon =>
    have hw : r.world.Course retry (Scope.one key).mailing w := by
      have := Change.opening_course retry key trigger now r.world
      rwa [hon] at this
    exact ⟨hw.accounted hr.accounted, fun j h' now' hj => absurd hj (hr.not_sending_set (.inr hs)),
      hr.distinct, hr.accepted_after hw⟩
  | @handed i trigger now h w hs hi hon =>
    obtain ⟨rfl, hdue⟩ := Change.opening_sends hon
    refine ⟨hr.accounted, fun j h' now' hj => ?_, hr.distinct, hr.accepted⟩
    by_cases hij : i = j
    · subst hij
      rw [List.getElem?_set_self'] at hj
      obtain ⟨_, -, hphase⟩ := Option.map_eq_some_iff.1 hj
      cases hphase
      exact ⟨rfl, ⟨r.world, hr.accounted, hdue, .refl⟩,
        fun n hn => hdue.lt_visit (hr.accepted n hn).2⟩
    · rw [List.getElem?_set_ne hij] at hj
      exact absurd hj (hr.not_sending hs)
  | @answered i h now answer result w hi hon =>
    obtain ⟨hslot, ⟨u, hu, hdue, hcourse⟩, hearlier⟩ := hr.sending i h now hi
    have hkey := Scope.not_turns_except key
    have hw : r.world.Course retry (.one key) w := by
      have := Change.closing_course hdue hkey hcourse answer
      rwa [hon] at this
    refine ⟨hw.accounted hr.accounted,
      fun j h' now' hj => absurd hj (hr.not_sending_set (.inl hslot)), ?_, ?_⟩
    · cases answer with
      | error fault => exact hr.distinct
      | ok messageId => exact hr.distinct.cons fun hn => Nat.lt_irrefl _ (hearlier _ hn)
    · cases answer with
      | error fault => exact hr.accepted_after hw
      | ok messageId =>
        obtain ⟨d, hd, hover⟩ := Change.closing_accepted hdue hkey hcourse messageId
        rw [hon] at hd
        refine List.forall_mem_cons.2 ⟨⟨?_, d, hd, hover⟩, hr.accepted_after hw⟩
        exact (hdue.mailVisit.after hu hcourse).after hr.accounted hw
  | @outside w hw =>
    refine ⟨hw.accounted hr.accounted, fun i h now hi => ?_, hr.distinct, hr.accepted_after hw⟩
    obtain ⟨hslot, ⟨u, hu, hdue, hcourse⟩, hearlier⟩ := hr.sending i h now hi
    exact ⟨hslot, ⟨u, hu, hdue, hcourse.trans hw⟩, hearlier⟩

theorem Fair.goes (hr : r.Fair retry key) (h : r.Goes retry key r') :
    r'.Fair retry key := by
  induction h with
  | refl => exact hr
  | tail _ h ih => exact ih.move h

/-- A race is a course of the world. -/
theorem Move.course (hr : r.Fair retry key) (h : r.Move retry key r') :
    r.world.Course retry Scope.all.mailing r'.world := by
  have hone : (Scope.one key).mailing.Within Scope.all.mailing := ⟨fun _ _ => trivial, id⟩
  cases h with
  | came => exact .refl
  | @ran i trigger now result w _ _ hon =>
    have hw := Change.opening_course retry key trigger now r.world
    rw [hon] at hw
    exact hw.mono hone
  | @handed i trigger now h w _ _ hon =>
    have hw := Change.opening_course retry key trigger now r.world
    rw [hon] at hw
    exact hw.mono hone
  | @answered i h now answer result w hi hon =>
    obtain ⟨-, ⟨u, -, hdue, hcourse⟩, -⟩ := hr.sending i h now hi
    have hw := Change.closing_course hdue (Scope.not_turns_except key) hcourse answer
    rw [hon] at hw
    exact hw.mono ⟨fun _ _ => trivial, False.elim⟩
  | outside hw => exact hw.mono ⟨fun _ _ => trivial, id⟩

theorem Goes.course (hr : r.Fair retry key) (h : r.Goes retry key r') :
    r.world.Course retry Scope.all.mailing r'.world := by
  induction h with
  | refl => exact .refl
  | tail h hmove ih => exact ih.trans (hmove.course (hr.goes h))

/-! ## A dispatch on its own -/

section Alone

variable {σ : Type} {svc : Services σ} {trigger : Trigger} {now : Instant} {i : Nat}
  {s t : Session σ} {result : Except Fault Outcome}

/-- One step that nothing comes in between. -/
theorem alone_step (hr : r.world = s.world) (hs : r.slot = none)
    (hi : r.dispatches[i]? = some (.ready trigger now))
    (hon : (Engine.dispatchOnce svc key trigger now).on s = (result, t)) :
    ∃ accepted, r.Goes svc.retry key
      ⟨t.world, none, r.dispatches.set i (.after now result), accepted⟩ := by
  rw [Engine.dispatchOnce_eq, Engine.on_bind, Engine.on_lift] at hon
  rcases hopen : (Change.opening key trigger now).on s.world with ⟨x | outcome | h, v⟩
  · rw [hopen] at hon
    cases hon
    exact ⟨r.accepted, .single (.ran hs hi (hr ▸ hopen))⟩
  · rw [hopen] at hon
    cases hon
    exact ⟨r.accepted, .single (.ran hs hi (hr ▸ hopen))⟩
  · rw [hopen] at hon
    obtain rfl := (Change.opening_sends hopen).1
    obtain ⟨answer, u, hattempt, hcourse⟩ :=
      Engine.attempt_coursed svc key h.mail h.lead now s
    have hclose : (Change.closing svc.retry h now answer).on u.world = (result, t.world) := by
      change (Engine.attempt svc key h.mail h.lead now >>= _).on s = _ at hon
      rw [Engine.on_bind_ok hattempt, Engine.on_lift] at hon
      cases hon
      rfl
    have hlt : i < r.dispatches.length := (List.getElem?_eq_some_iff.1 hi).1
    let out : Race := ⟨s.world, some i, r.dispatches.set i (.sending h now), r.accepted⟩
    have hout : out.dispatches[i]? = some (.sending h now) := List.getElem?_set_self hlt
    have hwithin : Scope.idle.mailing.Within (.except key) := ⟨fun _ hk => hk.elim, id⟩
    have hhanded : r.Goes svc.retry key out := .single (.handed hs hi (hr ▸ hopen))
    have hanswered : r.Goes svc.retry key
        ⟨t.world, none, (r.dispatches.set i (.sending h now)).set i (.after now result),
          out.accept h answer⟩ :=
      (hhanded.tail (.outside (hcourse.mono hwithin))).tail (.answered hout hclose)
    rw [List.set_set] at hanswered
    exact ⟨_, hanswered⟩

/-- A number of steps that nothing comes in between. -/
theorem alone_steps {n : Nat} (hr : r.world = s.world) (hs : r.slot = none)
    (hi : r.dispatches[i]? = some (.ready trigger now))
    (hon : (Engine.dispatchSteps svc key now n trigger).on s = (result, t))
    (hne : result ≠ .ok .moved) :
    ∃ accepted, r.Goes svc.retry key
      ⟨t.world, none, r.dispatches.set i (.ended result), accepted⟩ := by
  induction n generalizing r s trigger with
  | zero =>
    cases hon
    exact absurd rfl hne
  | succ n ih =>
    rcases hone : (Engine.dispatchOnce svc key trigger now).on s with ⟨one, u⟩
    obtain ⟨accepted, hgoes⟩ := alone_step hr hs hi hone
    unfold Engine.dispatchSteps at hon
    rw [Engine.on_bind, hone] at hon
    by_cases hmoved : one = .ok .moved
    · subst hmoved
      have hlt : i < r.dispatches.length := (List.getElem?_eq_some_iff.1 hi).1
      obtain ⟨accepted', hrest⟩ := ih (r := ⟨u.world, none, _, accepted⟩) rfl rfl
        (List.getElem?_set_self hlt) hon
      rw [List.set_set] at hrest
      exact ⟨accepted', hgoes.trans hrest⟩
    · have hover : one = result ∧ u = t := by
        rcases one with x | outcome
        · cases hon
          exact ⟨rfl, rfl⟩
        · cases outcome with
          | moved => exact absurd rfl hmoved
          | _ =>
            cases hon
            exact ⟨rfl, rfl⟩
      obtain ⟨rfl, rfl⟩ := hover
      have hafter : Phase.after now one = .ended one := by
        unfold Phase.after
        split
        · exact absurd rfl hmoved
        · rfl
      rw [hafter] at hgoes
      exact ⟨accepted, hgoes⟩

/-- **A dispatch on its own.** What the engine does for a trigger is a way for a race to go. -/
theorem alone (hr : r.world = s.world) (hs : r.slot = none)
    (hi : r.dispatches[i]? = some (.ready trigger now))
    (hon : (Engine.dispatch svc key trigger now).on s = (result, t)) (hne : result ≠ .ok .moved) :
    ∃ accepted, r.Goes svc.retry key
      ⟨t.world, none, r.dispatches.set i (.ended result), accepted⟩ := by
  unfold Engine.dispatch at hon
  rw [Engine.on_bind_ok (Engine.on_world s)] at hon
  exact alone_steps hr hs hi hon hne

end Alone

/-! ## No step is run twice -/

/-- **No step is run twice.** However dispatches of one cursor run into each other and into what
does not take the slot: one mail is out at a time, no visit has two mails accepted and each that has
one is a visit to a mail, every visit to a condition that was left has one answer, and a cursor that
was canceled is not moved again. -/
theorem never_twice {n : Nat} {w : World}
    (hw : (World.empty n).Course retry Scope.all.mailing w)
    (h : (Race.start w).Goes retry key r) :
    (∀ i j, r.Sending i → r.Sending j → i = j) ∧
      r.accepted.Nodup ∧ (∀ visit ∈ r.accepted, r.world.MailVisit key visit) ∧
      (∀ c, r.world.cursors.find? key = some c →
        ∃ g, r.world.flows.find? key.flowId = some g ∧ c.Accounted g) ∧
      ∀ c, r.world.cursors.find? key = some c → c.state = .canceled →
        ∀ r', r.Goes retry key r' → r'.world.cursors.find? key = some c := by
  have hr : r.Fair retry key := (Fair.start (hw.accounted (World.accounted_empty n))).goes h
  refine ⟨?_, hr.distinct, fun visit hv => (hr.accepted visit hv).1, fun c hc => ?_,
    fun c hc hcanceled r' hr' => ?_⟩
  · rintro i j ⟨h, now, hi⟩ ⟨h', now', hj⟩
    have hslot := (hr.sending i h now hi).1
    rw [(hr.sending j h' now' hj).1] at hslot
    exact (Option.some.inj hslot).symm
  · obtain ⟨g, hg, hacc⟩ := hr.accounted key c hc
    exact ⟨g, CursorStore.key_eq_of_find? hc ▸ hg, hacc⟩
  · exact (hr'.course hr).terminal hc (by rw [hcanceled]; rfl)

/-- The world in which a mail of a lead was accepted while its campaign was paused. -/
def pausedWorld (opened : Except Fault Opened) : World :=
  match opened with
  | .ok (.sends h) =>
    ((Change.closing Services.plain.retry h .epoch (.ok "m")).on
      ((Change.pause (.ofNat 7) .epoch).on Session.newcomer.world).2).2
  | _ => Session.newcomer.world

/-- Two dispatches enter a step with a mail. One hands it over, the campaign is paused, and the mail
is accepted. -/
theorem never_twice_paused :
    ∃ r c, (Race.start Session.newcomer.world).Goes Services.plain.retry
        ⟨.ofNat 0, "ada"⟩ r ∧
      r.dispatches.length = 2 ∧ r.accepted = [0] ∧ r.world.MailVisit ⟨.ofNat 0, "ada"⟩ 0 ∧
      r.world.cursors.find? ⟨.ofNat 0, "ada"⟩ = some c ∧ c.state = .canceled ∧
      (∃ g, r.world.flows.find? (.ofNat 0) = some g ∧ c.Accounted g) ∧
      ∀ r', r.Goes Services.plain.retry ⟨.ofNat 0, "ada"⟩ r' →
        r'.world.cursors.find? ⟨.ofNat 0, "ada"⟩ = some c := by
  let key : CursorKey := ⟨.ofNat 0, "ada"⟩
  let svc := Services.plain
  have hactive : (World.empty 0).Course svc.retry .all
      ((Change.activate (.ofNat 7) .followUp .epoch).on (World.empty 0)).2 :=
    Change.activate_course svc.retry .all (.ofNat 7) .followUp .epoch rfl
  have hw : (World.empty 0).Course svc.retry Scope.all.mailing Session.newcomer.world :=
    World.Course.mono (hactive.trans (Engine.addLead_follows (.ofNat 7) .ada .epoch _))
      Scope.all.within_mailing
  let opening := (Change.opening key .enter .epoch).on Session.newcomer.world
  have hsends : (match opening.1 with | .ok (.sends h) => h.cursor.visit == 0 | _ => false) =
      true := by decide +kernel
  have hend : ((pausedWorld opening.1).cursors.find? key).map Cursor.state = some .canceled := by
    decide +kernel
  rcases hon : opening with ⟨x | o | h, v⟩ <;> rw [hon] at hsends hend
  · cases hsends
  · cases hsends
  obtain rfl := (Change.opening_sends hon).1
  have hvisit : h.cursor.visit = 0 := beq_iff_eq.1 hsends
  obtain ⟨c, hc, hcanceled⟩ := Option.map_eq_some_iff.1 hend
  let paused := ((Change.pause (.ofNat 7) .epoch).on Session.newcomer.world).2
  rcases hclose : (Change.closing svc.retry h .epoch (.ok "m")).on paused with ⟨result, w⟩
  have hworld : pausedWorld (.ok (.sends h)) = w := congrArg Prod.snd hclose
  let ready : Phase := .ready .enter .epoch
  let out : Race := ⟨Session.newcomer.world, some 0, [.sending h .epoch, ready], []⟩
  let stopped : Race := { out with world := paused }
  let r : Race :=
    ⟨w, none, stopped.dispatches.set 0 (.after .epoch result), stopped.accept h (.ok "m")⟩
  have hcame : (Race.start Session.newcomer.world).Goes svc.retry key
      ⟨Session.newcomer.world, none, [ready, ready], []⟩ :=
    (Relation.ReflTransGen.single (.came .enter .epoch)).tail (.came .enter .epoch)
  have hout : (Race.start Session.newcomer.world).Goes svc.retry key out :=
    hcame.tail (Move.handed (i := 0) rfl rfl hon)
  have hsending : stopped.dispatches[0]? = some (.sending h .epoch) := rfl
  have hanswered : Move svc.retry key stopped r := .answered hsending hclose
  have hgoes := (hout.tail (.pause out (.ofNat 7) .epoch)).tail hanswered
  obtain ⟨-, -, hmails, haccounted, hstays⟩ := never_twice hw hgoes
  have hc' : w.cursors.find? key = some c := by
    rw [← hworld]
    exact hc
  exact ⟨r, c, hgoes, rfl, congrArg (fun n => [n]) hvisit,
    hmails 0 (by rw [← hvisit]; exact List.mem_singleton_self _), hc', hcanceled,
    haccounted c hc', hstays c hc' hcanceled⟩

end Race

end MailCampaign
