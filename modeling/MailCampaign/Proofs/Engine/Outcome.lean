import MailCampaign.Proofs.Engine.Beside

/-!
# What an outcome tells

The outcome of a step tells in which state it left its cursor: at the next step, waiting or at its end.
Only a trigger that is ignored tells nothing.

1. A move that is not refused leaves its cursor in the state that it is for, and what follows it does
   not change the cursor again, or is a move itself (`Change.shows_move`).
2. Where a condition has no answer nothing is moved, so there the cursor must be the stored one.
3. The outcome of a dispatch is that of its last round (`Rounds.shows`).
-/

namespace MailCampaign

/-- The state of a cursor of which an outcome tells. -/
def Outcome.Fits : Outcome → CursorState → Prop
  | .moved, state => state = .active
  | .parked, state => state.waiting = true
  | .finished last, state => state = last ∧ last.terminal = true
  | .ignored, _ => True

/-- An outcome that is not ignored tells the state of the cursor of a key. -/
def Shows (key : CursorKey) (r : Except Fault Outcome) (w : World) : Prop :=
  ∀ o, r = .ok o → o ≠ .ignored → ∃ d, w.cursors.find? key = some d ∧ o.Fits d.state

variable {key : CursorKey} {r : Except Fault Outcome} {w v : World} {c d : Cursor} {g : Graph}
  {node : Node} {now : Instant} {k : Condition}

theorem shows_error (x : Fault) : Shows key (.error x) w := fun _ h => by cases h

theorem shows_ignored : Shows key (.ok .ignored) w := fun _ h ho => absurd (Except.ok.inj h).symm ho

theorem shows_ok {o : Outcome} (hd : w.cursors.find? key = some d) (ho : o.Fits d.state) :
    Shows key (.ok o) w := fun _ h _ => Except.ok.inj h ▸ ⟨d, hd, ho⟩

theorem Shows.congr (h : Shows key r w) (hv : v.cursors = w.cursors) : Shows key r v :=
  fun o hr ho => hv ▸ h o hr ho

namespace Change

/-- A change whose outcome tells the state of the cursor of a key. -/
def Shows (key : CursorKey) (e : Change Outcome) (w : World) : Prop :=
  MailCampaign.Shows key (e.on w).1 (e.on w).2

theorem Shows.bind_ok {α : Type} {e : Change α} {f : α → Change Outcome} {a : α}
    (he : e.on w = (.ok a, v)) (h : (f a).Shows key v) : (e >>= f).Shows key w := by
  rw [Shows, on_bind_ok he]
  exact h

theorem Shows.bind_error {α : Type} {e : Change α} {f : α → Change Outcome} {x : Fault}
    (he : e.on w = (.error x, v)) : (e >>= f).Shows key w := by
  rw [Shows, on_bind_error he]
  exact shows_error x

/-- What goes on with something that is needed. -/
theorem Shows.need {α : Type} {x : Fault} {o : Option α} {f : α → Change Outcome}
    (h : ∀ a, (f a).Shows key w) : (Change.need x o >>= f).Shows key w := by
  cases o with
  | none => exact .bind_error rfl
  | some a => exact .bind_ok (on_need_some x a w) (h a)

/-- A change keeps its outcome through a report that follows it. -/
theorem Shows.report {e : Change Outcome} (h : e.Shows key w) (cursor : Cursor)
    (milestone : Milestone) (nodeId : String) (time : Instant) :
    (do
      let outcome ← e
      apply (·.report cursor milestone nodeId time)
      return outcome : Change Outcome).Shows key w := by
  rcases hr : e.on w with ⟨x | o, v⟩ <;> rw [Shows, hr] at h
  · exact .bind_error hr
  · exact .bind_ok hr (h.congr rfl)

/-! ## Moves -/

/-- Counting and reporting an end leaves the cursor that ended. -/
theorem shows_finish {nodeId : String} {state : CursorState} {milestone : Milestone}
    (hd : w.cursors.find? key = some d) (hs : d.state = state) (ht : state.terminal = true) :
    (finish c nodeId state milestone now).Shows key w := by
  have hcursors := (booked_finish c nodeId state milestone now w).cursors
  rw [Shows, on_finish]
  exact shows_ok (hcursors ▸ hd) ⟨hs, ht⟩

/-- A move leaves its cursor in the state that it is for, and what follows goes on from there. -/
theorem shows_move {state : CursorState} {outcome : String} {f : Cursor → Cursor}
    {rest : PUnit → Change Outcome} (hf : Tame f)
    (hrest : ∀ v d, v.cursors.find? key = some d → d.state = state → (rest ⟨⟩).Shows key v) :
    ((discard <| move key node state outcome now f) >>= rest).Shows key w := by
  have hmove : (∃ x v, (move key node state outcome now f).on w = (.error x, v) ∧
      w.Postings False v) ∨ _ := move_cases hf w
  rcases hmove with ⟨x, v, hon, -⟩ | ⟨b, d, rfl, hb, hsame, -, hd, hon⟩
  · exact .bind_error (discard_error hon)
  · exact .bind_ok (discard_ok hon) (hrest _ d (World.find?_storeCursor_self hb hsame.key) hd)

theorem shows_advance {branch : Branch} {outcome : String} :
    (advance g c node branch outcome now).Shows c.key w := by
  unfold advance
  split
  · exact shows_move ⟨fun _ => ⟨rfl, rfl, rfl⟩, fun _ => rfl⟩ fun _ _ hd hs => shows_ok hd hs
  · exact shows_move ⟨fun _ => ⟨rfl, rfl, rfl⟩, fun _ => rfl⟩ fun _ _ hd hs =>
      shows_finish hd hs rfl

theorem shows_scheduleDelay {wait : Wait} : (scheduleDelay c node wait now).Shows c.key w := by
  refine .need fun fireAt => shows_move ⟨fun _ => ⟨rfl, rfl, rfl⟩, fun _ => rfl⟩ fun v d hd hs => ?_
  exact .bind_ok (on_apply _ v) (shows_ok hd (by rw [Outcome.Fits, hs]; rfl))

theorem shows_reachGoal : (reachGoal c node now).Shows c.key w :=
  shows_move ⟨fun _ => ⟨rfl, rfl, rfl⟩, fun _ => rfl⟩ fun _ _ hd hs => shows_finish hd hs rfl

theorem shows_fail {reason : String} : (fail key reason now).Shows key w := by
  unfold fail
  rcases revise_cases key _ w with ⟨x, v, hon, -⟩ | ⟨b, d, hkey, hb, hd, hon⟩
  · exact .bind_error hon
  · obtain ⟨-, rfl⟩ := running_of_permit hd
    subst hkey
    exact .bind_ok hon (shows_finish (World.find?_storeCursor_self hb rfl) rfl rfl)

/-! ## Conditions -/

/-- A cursor that waits at a condition as it was read. -/
theorem shows_resolve {cause : Cause} (hc : w.cursors.find? c.key = some c)
    (hs : c.state = .waitingCondition) : (resolve g c node k cause now).Shows c.key w := by
  unfold resolve
  split
  · exact shows_ignored
  · split
    · exact shows_ok hc (by rw [Outcome.Fits, hs]; rfl)
    · exact shows_advance.report _ _ _ _

theorem shows_enterCondition : (enterCondition g c node k now).Shows c.key w := by
  refine .need fun deadline => ?_
  have hf : Tame fun c : Cursor =>
      { c with nextRun := some deadline, window := some ⟨node.id, now, deadline, []⟩ } :=
    ⟨fun _ => ⟨rfl, rfl, rfl⟩, fun _ => rfl⟩
  have hmove : (∃ x v, (move c.key node .waitingCondition "condition_entered" now _).on w =
      (.error x, v) ∧ w.Postings False v) ∨ _ := move_cases hf w
  rcases hmove with ⟨x, v, hon, -⟩ | ⟨b, d, hkey, hb, hsame, -, hd, hon⟩
  · exact .bind_error hon
  · refine .bind_ok hon ?_
    have hstored := World.find?_storeCursor_self hb hsame.key
    rw [← hsame.key] at hstored hkey
    rw [← hkey]
    exact shows_resolve hstored hd

theorem shows_observe {e : Engagement} (hc : w.cursors.find? c.key = some c)
    (hs : c.state = .waitingCondition) : (observe g c node k e now).Shows c.key w := by
  unfold observe
  split
  · exact shows_ignored
  · refine .bind_ok (on_cursor_some hc) ?_
    cases ho : observed e node now c with
    | none => exact shows_ignored
    | some new =>
      obtain ⟨win, -, -, rfl⟩ := observed_eq_some ho
      exact .bind_ok (on_apply _ w) (shows_resolve (World.find?_storeCursor_self hc rfl) hs)

/-! ## Mails -/

theorem shows_settleMail {policy : RetryPolicy} {result : Except SendFault String} :
    (settleMail policy g c node now result).Shows c.key w := by
  rcases result with (reason | reason) | messageId
  · show (mailFailed policy c node reason now).Shows c.key w
    unfold mailFailed
    dsimp only
    split
    · exact shows_fail
    · refine .need fun retryAt => shows_move ⟨fun _ => ⟨rfl, rfl, rfl⟩, fun _ => rfl⟩ fun v d hd hs => ?_
      exact .bind_ok (on_apply _ v) (shows_ok hd (by rw [Outcome.Fits, hs]; rfl))
  · exact shows_fail
  · exact .bind_ok (on_apply _ w) shows_advance

/-! ## Steps -/

/-- A step without mail, for a cursor as it was read. -/
theorem shows_handle {trigger : Trigger} (hc : w.cursors.find? c.key = some c) :
    (handle g c node trigger now).Shows c.key w := by
  have hguard : ∀ {p : Prop} [Decidable p] {d : Change Outcome}, (p → d.Shows c.key w) →
      (if p then d else return .ignored).Shows c.key w := by
    intro p _ d h
    split
    · next hp => exact h hp
    · exact shows_ignored
  unfold handle
  split
  · exact hguard fun _ => shows_scheduleDelay
  · exact hguard fun _ => shows_advance
  · exact hguard fun _ => shows_enterCondition
  · exact hguard fun hs => shows_resolve hc hs
  · exact hguard fun hs => shows_observe hc hs
  · exact hguard fun _ => shows_reachGoal
  · exact shows_ignored

end Change

namespace Engine

variable {σ : Type} {svc : Services σ} {s t : Session σ} {trigger : Trigger}

/-- An operation whose outcome tells the state of the cursor of a key. -/
def Shows (key : CursorKey) (e : Engine σ Outcome) (s : Session σ) : Prop :=
  MailCampaign.Shows key (e.on s).1 (e.on s).2.world

theorem shows_lift {e : Change Outcome} (h : e.Shows key s.world) :
    (liftM e : Engine σ Outcome).Shows key s := h

theorem shows_perform (hc : s.world.cursors.find? c.key = some c) :
    (perform svc g c node trigger now).Shows c.key s := by
  rw [perform_eq]
  split
  · unfold sendMail Shows
    rw [on_bind_ok (on_world s)]
    split
    · exact shows_lift Change.shows_fail
    · next lead _ =>
      rw [on_bind]
      rcases (attempt svc c.key _ lead now).on s with ⟨x | result, t⟩
      · exact shows_error x
      · exact shows_lift Change.shows_settleMail
  · exact shows_lift (Change.shows_handle hc)

theorem shows_execute (hc : s.world.cursors.find? c.key = some c) (hr : c.state.terminal = false) :
    (execute svc g c.key trigger now).Shows c.key s := by
  cases hn : g.node? c.nodeId with
  | none =>
    unfold execute Shows
    rw [on_bind_ok (on_cursor_some hc), hr, if_neg Bool.false_ne_true, hn]
    exact shows_lift Change.shows_fail
  | some node =>
    have hperform : (perform svc g c node trigger now).Shows c.key s := shows_perform hc
    rw [Shows] at hperform
    rw [Shows, on_execute hc hr hn, on_ignoreClash]
    rcases hp : (perform svc g c node trigger now).on s with ⟨x | o, t⟩ <;> rw [hp] at hperform
    · cases x with
      | clash => exact shows_ignored
      | _ => exact shows_error _
    · exact hperform

/-- The outcome of a round tells how it left its cursor. -/
theorem dispatchOnce_shows (svc : Services σ) (key : CursorKey) (trigger : Trigger) (now : Instant)
    (s : Session σ) : (dispatchOnce svc key trigger now).Shows key s := by
  unfold dispatchOnce Shows
  cases hc : s.world.cursors.find? key with
  | none =>
    rw [on_bind_error (on_cursor_none hc)]
    exact shows_error _
  | some c =>
    obtain rfl := CursorStore.key_eq_of_find? hc
    rw [on_bind_ok (on_cursor_some hc), on_bind_ok (on_world s)]
    cases hr : c.state.terminal with
    | true => exact shows_ignored
    | false =>
      rw [if_neg Bool.false_ne_true]
      split
      · obtain ⟨v, hcancel, hv⟩ := Change.cancel_halts hc hr "campaign halted" now
        have hdiscard : (discard (liftM (Change.cancel c.key "campaign halted" now)) :
            Engine σ PUnit).on s = (.ok ⟨⟩, { s with world := v }) := by
          rw [on_discard, on_lift, hcancel]
          rfl
        rw [on_bind_ok hdiscard]
        have hended : v.cursors.find? c.key = some (Change.canceled "campaign halted" now c) := by
          rw [hv.cursors, if_pos (List.mem_singleton_self _), hc, Option.map_some]
        exact shows_ok hended ⟨rfl, rfl⟩
      · rcases hneed : (liftM (Change.need (.missing (.flowVersion c.key.flowId))
            (s.world.flows.find? c.key.flowId)) : Engine σ Graph).on s with ⟨x | g, t⟩
        · rw [on_bind_error hneed]
          exact shows_error x
        · have ht : s = t := by
            cases hg : s.world.flows.find? c.key.flowId <;> rw [on_lift, hg] at hneed <;> cases hneed
            rfl
          subst ht
          rw [on_bind_ok hneed]
          exact shows_execute hc hr

/-- So does the outcome of a dispatch. -/
theorem Rounds.shows {rounds : List (Round σ)} (h : Rounds svc key now trigger s rounds r t) :
    MailCampaign.Shows key r t.world := by
  induction h with
  | @last trigger s t r hon _ =>
    have hshows := dispatchOnce_shows svc key trigger now s
    rwa [Shows, hon] at hshows
  | again _ _ ih => exact ih

end Engine

end MailCampaign
