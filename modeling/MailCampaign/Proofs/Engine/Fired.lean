import MailCampaign.Proofs.Engine.Local
import MailCampaign.Proofs.Engine.Posted
import MailCampaign.Proofs.Engine.Window
import MailCampaign.Proofs.World.Fired

/-!
# Dispatches that get a cursor on

A cursor is ready for a trigger when it has just come to its step, or when it waits there and its timer
is due. In a sound world, with a mailer that lets nothing happen while it is at work:

1. A dispatch changes no flow and no cursor but its own (`dispatch_onlyAt`).
2. A round that finds its cursor ready gets it on, as the state, the step, the timer and the window of a
   well-formed cursor agree (`dispatchOnce_fires`). If the cursor moved, it is ready for the next round.
3. So a dispatch that finds its cursor ready gets it on (`dispatch_fires`).
-/

namespace MailCampaign

variable {σ : Type}

/-! ## Other cursors -/

/-- Worlds with the same flows that differ in one cursor at most. -/
structure World.OnlyAt (key : CursorKey) (w v : World) : Prop where
  flows : v.flows = w.flows
  others : ∀ k, k ≠ key → v.cursors.find? k = w.cursors.find? k

instance (key : CursorKey) : IsPreorder World (World.OnlyAt key) where
  refl := fun _ => ⟨rfl, fun _ _ => rfl⟩
  trans := fun _ _ _ h h' =>
    ⟨h'.flows.trans h.flows, fun k hk => (h'.others k hk).trans (h.others k hk)⟩

/-- The realm of a cursor with all keys of events and all leads. -/
def Realm.wide (key : CursorKey) : Realm := ⟨key, fun _ => True, fun _ => True⟩

theorem World.onlyAt_after {R : Realm} {acts : List Act} (hin : ∀ a ∈ acts, a.Within R) (w : World) :
    w.OnlyAt R.key (w.after acts) := by
  induction acts generalizing w with
  | nil => exact refl_of (World.OnlyAt R.key) w
  | cons a rest ih =>
    have hw := a.seen_on w
    have hstep : w.OnlyAt R.key (a.on w) := by
      refine ⟨hw.flows, fun k hk => ?_⟩
      rw [hw.cursors, (hin a List.mem_cons_self).cursor?_eq_none hk, Option.none_or]
    exact trans_of (World.OnlyAt R.key) hstep (ih (fun b hb => hin b (List.mem_cons_of_mem a hb)) _)

/-- A change that keeps to a realm leaves the other cursors alone. -/
theorem Change.Local.onlyAt {α : Type} {R : Realm} {e : Change α} (h : e.Local R) :
    e.Keeps (World.OnlyAt R.key) := by
  intro w
  obtain ⟨result, acts, hin, hon⟩ := h w
  rw [hon w (.refl R w)]
  exact World.onlyAt_after hin w

/-- What makes a step do something for a cursor. -/
def Cursor.Ready (c : Cursor) (now : Instant) : Trigger → Prop
  | .enter => c.state.entering = true
  | .timer => c.state.waiting = true ∧ c.dueAt now = true
  | .event _ => False

theorem Cursor.Ready.running {c : Cursor} {now : Instant} {trigger : Trigger}
    (h : c.Ready now trigger) : c.state.terminal = false := by
  cases trigger with
  | enter => exact CursorState.terminal_of_entering h
  | timer =>
    cases ht : c.state.terminal with
    | false => rfl
    | true =>
      have hwaits := h.1
      rw [CursorState.waiting_of_terminal ht] at hwaits
      cases hwaits
  | event e => exact h.elim

namespace Engine

open Session

variable {svc : Services σ} {key : CursorKey} {trigger : Trigger} {now : Instant} {g : Graph}
  {c : Cursor} {node : Node} {s t : Session σ} {patient : Prop}

/-- A mail changes neither the flows nor the cursors. -/
theorem attempt_quiet (hq : svc.mailer.Quiet) (key : CursorKey) (mail : Mail) (lead : Lead)
    (now : Instant) (s : Session σ) :
    ∃ result t, (attempt svc key mail lead now).on s = (.ok result, t) ∧
      t.world.flows = s.world.flows ∧ t.world.cursors = s.world.cursors := by
  have hworld := world_render svc.renderer mail lead s
  have hflows := congrArg World.flows hworld
  have hcursors := congrArg World.cursors hworld
  rcases on_attempt svc key mail lead now s with ⟨e, he⟩ | ⟨text, htext⟩
  · exact ⟨_, _, he, hflows, hcursors⟩
  · exact ⟨_, _, htext.trans (on_deliver hq lead text _), hflows, hcursors⟩

theorem sendMail_onlyAt (hq : svc.mailer.Quiet) {mail : Mail} :
    (sendMail svc g c node mail now).Keeps (Worlds (World.OnlyAt c.key)) := by
  refine .world fun w => ?_
  cases w.leads.find? c.leadId with
  | none => exact worlds_lift (Change.fail_local (R := .wide c.key) rfl).onlyAt
  | some lead =>
    have hattempt : (attempt svc c.key mail lead now).Keeps (Worlds (World.OnlyAt c.key)) := by
      intro s
      obtain ⟨result, t, hon, hflows, hcursors⟩ := attempt_quiet hq c.key mail lead now s
      rw [hon]
      exact ⟨hflows, fun k _ => by rw [hcursors]⟩
    exact hattempt.bind fun result =>
      worlds_lift (Change.settleMail_local (R := .wide c.key) rfl fun _ _ => trivial).onlyAt

theorem perform_onlyAt (hq : svc.mailer.Quiet) :
    (perform svc g c node trigger now).Keeps (Worlds (World.OnlyAt c.key)) := by
  rw [perform_eq]
  split
  · exact sendMail_onlyAt hq
  · exact worlds_lift (Change.handle_local (R := .wide c.key) rfl).onlyAt

theorem execute_onlyAt (hq : svc.mailer.Quiet) :
    (execute svc g key trigger now).Keeps (Worlds (World.OnlyAt key)) := by
  intro s
  unfold execute
  cases hc : s.world.cursors.find? key with
  | none =>
    rw [on_bind_error (on_cursor_none hc)]
    exact refl_of (World.OnlyAt key) _
  | some c =>
    obtain rfl := CursorStore.key_eq_of_find? hc
    rw [on_bind_ok (on_cursor_some hc)]
    split
    · exact refl_of (World.OnlyAt c.key) _
    · split
      · exact worlds_lift (Change.fail_local (R := .wide c.key) rfl).onlyAt s
      · refine Keeps.tryCatch (perform_onlyAt hq) (fun x => ?_) s
        cases x with
        | clash => exact .pure _
        | _ => exact .throw _

theorem dispatchOnce_onlyAt (hq : svc.mailer.Quiet) :
    (dispatchOnce svc key trigger now).Keeps (Worlds (World.OnlyAt key)) := by
  refine (worlds_lift (.cursor key)).bind fun c => .world fun w => ?_
  split
  · exact .pure _
  · split
    · have hcancel : (Change.cancel key "campaign halted" now).Keeps (World.OnlyAt key) :=
        (Change.cancel_local (R := .wide key) rfl).onlyAt
      exact (worlds_lift hcancel).discard.bind fun _ => .pure _
    · exact (worlds_lift (.need _ _)).bind fun g => execute_onlyAt hq

theorem dispatch_onlyAt (hq : svc.mailer.Quiet) :
    (dispatch svc key trigger now).Keeps (Worlds (World.OnlyAt key)) :=
  .dispatch (fun _ => dispatchOnce_onlyAt hq) trigger

/-! ## One step -/

/-- An operation that gets a cursor on from a session. -/
def Fires (c : Cursor) (now : Instant) (patient : Prop) (e : Engine σ Outcome) (s : Session σ) :
    Prop := c.Fired now patient (e.on s).1 (e.on s).2.world

theorem Fires.lift {e : Change Outcome} (h : e.Fires c now patient s.world) :
    (liftM e : Engine σ Outcome).Fires c now patient s := h

theorem sendMail_fires (hq : svc.mailer.Quiet) {mail : Mail}
    (hc : s.world.cursors.find? c.key = some c) (hn : c.nodeId = node.id) (hs : c.Sendable now)
    (hr : c.state.terminal = false) (hpolicy : patient → svc.retry.Patient) :
    (sendMail svc g c node mail now).Fires c now patient s := by
  unfold sendMail Fires
  rw [on_bind_ok (on_world s)]
  cases s.world.leads.find? c.leadId with
  | none => exact Fires.lift (Change.fail_fires _ hc hr)
  | some lead =>
    obtain ⟨result, t, hon, -, hcursors⟩ := attempt_quiet hq c.key mail lead now s
    dsimp only
    rw [on_bind_ok hon]
    exact Fires.lift (Change.settleMail_fires (hcursors ▸ hc) hn hs hpolicy)

theorem perform_fires (hq : svc.mailer.Quiet) (hs : s.world.Sound)
    (hpatient : patient → s.world.Patient svc.retry) (hc : s.world.cursors.find? c.key = some c)
    (hat : c.At s.world.flows g node) (hready : c.Ready now trigger) :
    (perform svc g c node trigger now).Fires c now patient s := by
  have hwell := hs c.key c hc
  have hfits := (hwell.fits hat).1
  have hr := hready.running
  have hpolicy : patient → svc.retry.Patient := fun hp => (hpatient hp).policy
  have hnext : ∀ {k}, node.action = .condition k → ∀ branch, branch ≠ .next →
      ∃ next, g.next? node.id branch = some next := fun ha _ hb =>
    Graph.next?_of_condition hat.step ha hb
  cases trigger with
  | event e => exact hready.elim
  | enter =>
    have he : c.state.entering = true := hready
    unfold perform
    cases ha : node.action with
    | email mail =>
      dsimp only
      rw [if_pos he]
      exact sendMail_fires hq hc hat.nodeId (.inl he) hr hpolicy
    | delay wait =>
      dsimp only
      rw [if_pos he]
      refine Fires.lift (Change.scheduleDelay_fires hc hat.nodeId he fun hp => ?_)
      exact (hpatient hp).delays _ g hat.version node (Document.mem_of_node? hat.step) wait ha
    | condition k =>
      dsimp only
      rw [if_pos he]
      exact Fires.lift (Change.enterCondition_fires hc hat.nodeId he (hnext ha))
    | goal goal =>
      dsimp only
      rw [if_pos he]
      exact Fires.lift (Change.reachGoal_fires hc hat.nodeId he (hwell.entering he).1)
  | timer =>
    obtain ⟨hwaits, hdue⟩ := hready
    unfold Cursor.Fits at hfits
    cases hstate : c.state with
    | waitingDelay =>
      rw [hstate] at hfits
      unfold perform
      rcases hfits with ⟨mail, ha⟩ | ⟨wait, ha⟩ <;> rw [ha] <;> dsimp only <;>
        rw [if_pos ⟨hstate, hdue⟩]
      · exact sendMail_fires hq hc hat.nodeId (.inr ⟨hstate, hdue⟩) hr hpolicy
      · exact Fires.lift (Change.advance_fires hc hat.nodeId hr fun _ => by rw [hstate]; rfl)
    | waitingCondition =>
      rw [hstate] at hfits
      obtain ⟨k, win, ha, hw, hwin⟩ := hfits
      have hlate : win.deadline ≤ now := by
        rw [Cursor.dueAt, hwin.due] at hdue
        exact of_decide_eq_true hdue
      unfold perform
      rw [ha]
      dsimp only
      rw [if_pos hstate]
      exact Fires.lift (Change.resolve_fires hc hat.nodeId hstate hw (hwin.nodeId.trans hat.nodeId)
        hlate (by decide) (hnext ha))
    | _ => rw [hstate] at hwaits; cases hwaits

theorem dispatchOnce_fires (hq : svc.mailer.Quiet) (hs : s.world.Sound)
    (hpatient : patient → s.world.Patient svc.retry) (hc : s.world.cursors.find? key = some c)
    (hready : c.Ready now trigger) : (dispatchOnce svc key trigger now).Fires c now patient s := by
  obtain rfl := CursorStore.key_eq_of_find? hc
  have hr := hready.running
  obtain ⟨g, node, hat, -⟩ := (hs c.key c hc).placed
  unfold dispatchOnce Fires
  rw [on_bind_ok (on_cursor_some hc), on_bind_ok (on_world s), if_neg (by rw [hr]; nofun)]
  by_cases hst : (s.world.status c.campaignId).halts = true
  · rw [if_pos hst]
    obtain ⟨v, hcancel, hfired⟩ : ∃ v, (Change.cancel c.key "campaign halted" now).on s.world =
      (.ok true, v) ∧ c.Fired now patient _ v := Change.cancel_fires "campaign halted" hc hr
    have hdiscard : (discard (liftM (Change.cancel c.key "campaign halted" now)) :
        Engine σ PUnit).on s = (.ok ⟨⟩, { s with world := v }) := by
      rw [on_discard, on_lift, hcancel]
      rfl
    rw [on_bind_ok hdiscard]
    exact hfired
  · have hneed : (liftM (Change.need (.missing (.flowVersion c.key.flowId))
        (s.world.flows.find? c.key.flowId)) : Engine σ Graph).on s = (.ok g, s) := by
      have hversion : s.world.flows.find? c.key.flowId = some g := hat.version
      rw [on_lift, hversion, Change.on_need_some]
    rw [if_neg hst, on_bind_ok hneed, on_execute hc hr hat.step, on_ignoreClash]
    have hfires := perform_fires hq hs hpatient hc hat hready
    unfold Fires at hfires
    rcases hp : (perform svc g c node trigger now).on s with ⟨r, t⟩
    rw [hp] at hfires
    cases hfires with
    | went ho hd hf hdue => exact .went ho hd hf hdue
    | outOfRange => exact .outOfRange _

/-! ## All rounds -/

/-- The rounds of a ready cursor get it on. -/
theorem Rounds.fired {rounds : List (Round σ)} {r : Except Fault Outcome}
    (h : Rounds svc key now trigger s rounds r t) (hq : svc.mailer.Quiet) (hs : s.world.Sound)
    (hpatient : patient → s.world.Patient svc.retry) (hc : s.world.cursors.find? key = some c)
    (hready : c.Ready now trigger) : c.Fired now patient r t.world := by
  induction h generalizing c with
  | @last trigger s t r hon _ =>
    have hfires := dispatchOnce_fires hq hs hpatient hc hready
    rwa [Fires, hon] at hfires
  | @again trigger s t u rounds r hon _ ih =>
    have hfires := dispatchOnce_fires hq hs hpatient hc hready
    have honly : (dispatchOnce svc key trigger now).Keeps (Worlds (World.OnlyAt key)) :=
      dispatchOnce_onlyAt hq
    have hothers := honly s
    have hsound := ((dispatchOnce_follows key trigger now).trail hon).course.sound hs
    obtain ⟨g, hg⟩ := hs.version hc
    obtain ⟨r', t', hturn⟩ := dispatchOnce_turns svc now trigger hc hg
    obtain ⟨rfl, rfl⟩ := Prod.mk.inj (hon.symm.trans hturn.on)
    obtain ⟨d, hd, hactive, -⟩ := hturn.lands.of_moved
    rw [Fires, hon] at hfires
    rw [hon] at hothers
    cases hfires with
    | went _ hd' hf _ =>
      have hkey := CursorStore.key_eq_of_find? hc
      have hown : t.world.cursors.find? c.key = some d := hkey.symm ▸ hd
      obtain rfl := Option.some.inj (hown.symm.trans hd')
      have hready : d.Ready now .enter := by rw [Cursor.Ready, hactive]; rfl
      have hfired := ih hsound (fun hp => (hpatient hp).of_flows hothers.flows) hd hready
      exact hfired.of_prefix (hkey.trans (CursorStore.key_eq_of_find? hd).symm) hf.prefix

/-- **A dispatch that finds its cursor ready gets it on.** -/
theorem dispatch_fires (hq : svc.mailer.Quiet) (hs : s.world.Sound)
    (hpatient : patient → s.world.Patient svc.retry) (hc : s.world.cursors.find? key = some c)
    (hready : c.Ready now trigger) : (dispatch svc key trigger now).Fires c now patient s := by
  obtain ⟨g, hg⟩ := hs.version hc
  obtain ⟨rounds, r, t, hrounds, hon, -⟩ : ∃ rounds r t, Rounds svc key now trigger s rounds r t ∧
    (dispatch svc key trigger now).on s = (r, t) ∧ _ := dispatch_rounds trigger hc hg
  rw [Fires, hon]
  exact hrounds.fired hq hs hpatient hc hready

end Engine

end MailCampaign
