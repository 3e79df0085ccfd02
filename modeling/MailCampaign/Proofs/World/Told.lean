import MailCampaign.Proofs.Cursor.Route
import MailCampaign.Proofs.World.Posted
import MailCampaign.Proofs.World.Story

/-!
# Changes that tell what they do

Every change has the stories of cursors go on, and all that it adds is of the instant of the change. A
move writes a line of history and tells of it, or it is refused and nothing is told
(`Change.Transition.refused`). A mail that was accepted is told of even so.
-/

namespace MailCampaign

theorem World.Mute.of_kept {w v : World} (h : w.Kept v) : w.Mute v := by
  cases h with
  | same => exact .refl w
  | written hc => exact .storeCursor hc rfl rfl rfl

namespace Change

open World

variable {α β : Type} {key : CursorKey} {node : Node} {c : Cursor} {g : Graph} {now : Instant}
  {w v : World} {s : Step} {line : Option Line} {state : CursorState} {x : Fault}

theorem Keeps.mute {e : Change α} (h : e.Keeps Mute) : e.Keeps (Tells now []) :=
  h.mono fun _ _ h => h.tells

/-! ## Moves -/

/-- A change is refused and says nothing, or it adds a line of history with what is told of it. -/
def AddsLine (key : CursorKey) (s : Step) (line : Option Line) (e : Change α) (w : World) : Prop :=
  (∃ x v, e.on w = (.error x, v) ∧ w.Mute v) ∨
    ∃ a v state marks, e.on w = (.ok a, v) ∧ w.Adds key s state marks v ∧ Records line state marks

namespace AddsLine

variable {e : Change α}

theorem tells (h : e.AddsLine key s s.line? w) (hs : s.time = now) :
    w.Tells now [] (e.on w).2 := by
  rcases h with ⟨x, v, hon, hmute⟩ | ⟨a, v, state, marks, hon, hadds, hmarks⟩
  · rw [hon]
    exact hmute.tells
  · rw [hon]
    exact hadds.tells hs hmarks

/-- A change that is refused tells nothing. -/
theorem refused (h : e.AddsLine key s line w) (hon : e.on w = (.error x, v)) :
    v.activities = w.activities := by
  rcases h with ⟨x', v', hon', hmute⟩ | ⟨a, v', state, marks, hon', -⟩
  · rw [hon] at hon'
    obtain ⟨-, rfl⟩ := Prod.mk.inj hon'
    exact hmute.activities
  · rw [hon] at hon'
    cases hon'

/-- The line is told of afterwards. -/
theorem report {f : α → Change β} {b : Cursor} {nodeId outcome : String}
    (h : e.AddsLine key s none w) (milestone : Milestone) (hb : b.key = key)
    (ho : milestone.outcome? = some outcome)
    (hf : ∀ a v, ∃ r, (f a).on v = (.ok r, v.report b milestone nodeId now)) :
    (e >>= f).AddsLine key s (some (nodeId, outcome, now)) w := by
  rcases h with ⟨x, v, hon, hmute⟩ | ⟨a, v, state, marks, hon, hadds, hmarks⟩
  · exact .inl ⟨x, v, on_bind_error hon, hmute⟩
  · obtain ⟨r, hr⟩ := hf a v
    exact .inr ⟨r, _, state, _, (on_bind_ok hon).trans hr, hadds.report hb milestone nodeId now,
      hmarks.line (a := b.activity milestone nodeId now) ho⟩

theorem discard (h : e.AddsLine key s line w) :
    (Functor.discard e).AddsLine key s line w := by
  rcases h with ⟨x, v, hon, hmute⟩ | ⟨a, v, state, marks, hon, hadds, hmarks⟩
  · exact .inl ⟨x, v, discard_error hon, hmute⟩
  · exact .inr ⟨_, v, state, marks, discard_ok hon, hadds, hmarks⟩

/-- Nothing but an outcome follows. -/
theorem andThen {b : β} (h : e.AddsLine key s line w) :
    (e >>= fun _ => pure b).AddsLine key s line w := by
  rcases h with ⟨x, v, hon, hmute⟩ | ⟨a, v, state, marks, hon, hadds, hmarks⟩
  · exact .inl ⟨x, v, on_bind_error hon, hmute⟩
  · exact .inr ⟨b, v, state, marks, on_bind_ok hon, hadds, hmarks⟩

end AddsLine

/-- The fields that a move changes besides the line and the state. -/
structure Plain (f : Cursor → Cursor) : Prop where
  key : ∀ c : Cursor, (f c).key = c.key
  history : ∀ c : Cursor, (f c).history = c.history
  state : ∀ c : Cursor, (f c).state = c.state

/-- A move is refused, or the cursor gets a line of the step at which it is. -/
theorem move_told {outcome : String} {f : Cursor → Cursor} (hf : Plain f) (w : World) :
    (∃ x v, (move key node state outcome now f).on w = (.error x, v) ∧ w.Mute v) ∨
      ∃ d v, (move key node state outcome now f).on w = (.ok d, v) ∧ d.key = key ∧
        w.Adds key ⟨node.id, node.action.name, outcome, now⟩ state [] v := by
  unfold move
  rcases revise_cases key _ w with ⟨x, v, hon, hv⟩ | ⟨c, d, hkey, hc, hd, hon⟩
  · exact .inl ⟨x, v, hon, .of_kept hv⟩
  · subst hkey
    split at hd
    · cases hd
    · next hn =>
      obtain ⟨hr, rfl⟩ := running_of_permit hd
      have hnode : c.nodeId = node.id := by simpa using hn
      refine .inr ⟨_, _, hon, hf.key _, ?_⟩
      have hadds := Adds.of_store (s := ⟨node.id, node.action.name, outcome, now⟩) hc hr
        (hf.key (c.log node.action.name outcome state now))
        ((hf.history _).trans (by rw [← hnode]; rfl))
      rw [hf.state] at hadds
      exact hadds

/-- A move of a cursor that runs on. -/
theorem move_adds {outcome : String} {f : Cursor → Cursor} (hs : state.terminal = false)
    (hf : Plain f) :
    (move key node state outcome now f).AddsLine key ⟨node.id, node.action.name, outcome, now⟩
      none w := by
  have hmove : (∃ x v, (move key node state outcome now f).on w = (.error x, v) ∧ w.Mute v) ∨ _ :=
    move_told hf w
  rcases hmove with hrefused | ⟨d, v, hon, -, hadds⟩
  · exact .inl hrefused
  · exact .inr ⟨d, v, state, [], hon, hadds, .silent hs⟩

/-- A move into a terminal state, with the end told of. -/
theorem conclude_adds {outcome nodeId : String} {f : Cursor → Cursor} {milestone : Milestone}
    (hend : milestone.end? = some state) (hf : Plain f) :
    (do
      discard <| move c.key node state outcome now f
      finish c nodeId state milestone now).AddsLine c.key
        ⟨node.id, node.action.name, outcome, now⟩ none w := by
  have hmove : (∃ x v, (move c.key node state outcome now f).on w = (.error x, v) ∧ w.Mute v) ∨ _ :=
    move_told hf w
  rcases hmove with ⟨x, v, hon, hmute⟩ | ⟨d, v, hon, -, hadds⟩
  · exact .inl ⟨x, v, on_bind_error (discard_error hon), hmute⟩
  · exact .inr ⟨_, _, state, _, on_bind_ok (discard_ok hon), hadds.finish rfl milestone nodeId now,
      .ended_one (a := c.activity milestone nodeId now) hend⟩

theorem advance_adds {branch : Branch} {outcome : String} :
    (advance g c node branch outcome now).AddsLine c.key
      ⟨node.id, node.action.name, outcome, now⟩ none w := by
  unfold advance
  split
  · next next _ =>
    have hmove : (move c.key node .active outcome now fun c => c.moveTo next.id).AddsLine c.key
        ⟨node.id, node.action.name, outcome, now⟩ none w :=
      move_adds rfl ⟨fun _ => rfl, fun _ => rfl, fun _ => rfl⟩
    exact hmove.discard.andThen
  · exact conclude_adds rfl ⟨fun _ => rfl, fun _ => rfl, fun _ => rfl⟩

theorem fail_adds (key : CursorKey) (reason : String) (now : Instant) (w : World) :
    ∃ s : Step, s.time = now ∧ s.line? = none ∧ (fail key reason now).AddsLine key s none w := by
  unfold fail
  rcases revise_cases key _ w with ⟨x, v, hon, hv⟩ | ⟨c, d, hkey, hc, hd, hon⟩
  · exact ⟨⟨"", "cursor", "failed", now⟩, rfl, rfl, .inl ⟨x, v, on_bind_error hon, .of_kept hv⟩⟩
  · subst hkey
    obtain ⟨hr, rfl⟩ := running_of_permit hd
    have hadds := Adds.of_store (s := ⟨c.nodeId, "cursor", "failed", now⟩)
      (d := { (c.log "cursor" "failed" .failed now).release with failure := some reason })
      hc hr rfl rfl
    exact ⟨_, rfl, rfl, .inr ⟨_, _, .failed, _, on_bind_ok hon,
      hadds.finish rfl (.failed reason) c.nodeId now, .ended_one rfl⟩⟩

theorem scheduleDelay_adds {wait : Wait} :
    (scheduleDelay c node wait now).AddsLine c.key
      ⟨node.id, node.action.name, "delay_scheduled", now⟩
      (some (node.id, "delay_scheduled", now)) w := by
  unfold scheduleDelay
  rcases on_after now wait.span w with ⟨fireAt, -, hon⟩ | hon
  · have hmove : (move c.key node .waitingDelay "delay_scheduled" now
        fun c => { c with nextRun := some fireAt }).AddsLine c.key
        ⟨node.id, node.action.name, "delay_scheduled", now⟩ none w :=
      move_adds rfl ⟨fun _ => rfl, fun _ => rfl, fun _ => rfl⟩
    unfold AddsLine
    rw [on_bind_ok hon]
    exact hmove.discard.report (.delayScheduled fireAt) rfl rfl fun _ _ => ⟨_, rfl⟩
  · exact .inl ⟨_, w, on_bind_error hon, .refl w⟩

theorem reachGoal_adds :
    (reachGoal c node now).AddsLine c.key ⟨node.id, node.action.name, "goal_reached", now⟩
      none w := conclude_adds rfl ⟨fun _ => rfl, fun _ => rfl, fun _ => rfl⟩

/-! ## Changes of one cursor -/

/-- A change leaves the stories alone and tells nothing, or it adds one line to the history of a cursor
with what is told of it. -/
def Speaks (key : CursorKey) (now : Instant) (e : Change α) (w : World) : Prop :=
  w.Mute (e.on w).2 ∨ ∃ s : Step, s.time = now ∧ e.AddsLine key s s.line? w

namespace Speaks

variable {e : Change α}

theorem tells (h : e.Speaks key now w) : w.Tells now [] (e.on w).2 := by
  rcases h with hmute | ⟨s, hs, hadds⟩
  · exact hmute.tells
  · exact hadds.tells hs

theorem refused (h : e.Speaks key now w) (hon : e.on w = (.error x, v)) :
    v.activities = w.activities := by
  rcases h with hmute | ⟨s, -, hadds⟩
  · rw [hon] at hmute
    exact hmute.activities
  · exact hadds.refused hon

/-- Something mute goes before. -/
theorem of_mute {d : Change β} {f : β → Change α} {b : β} (hon : d.on w = (.ok b, v))
    (hw : w.Mute v) (h : (f b).Speaks key now v) : (d >>= f).Speaks key now w := by
  unfold Speaks AddsLine
  rw [on_bind_ok hon]
  rcases h with hmute | ⟨s, hs, ⟨x, u, hx, hmute⟩ | ⟨a, u, state, marks, ha, hadds, hmarks⟩⟩
  · exact .inl (hw.trans hmute)
  · exact .inr ⟨s, hs, .inl ⟨x, u, hx, hw.trans hmute⟩⟩
  · exact .inr ⟨s, hs, .inr ⟨a, u, state, marks, ha, hadds.of_mute hw, hmarks⟩⟩

end Speaks

/-- A line that is not told of as such. -/
theorem AddsLine.speaks {e : Change α} {nodeId kind outcome : String}
    (h : e.AddsLine key ⟨nodeId, kind, outcome, now⟩ none w) (ho : outcome ∉ Step.toldOutcomes) :
    e.Speaks key now w := by
  refine .inr ⟨⟨nodeId, kind, outcome, now⟩, rfl, ?_⟩
  unfold Step.line?
  rw [if_neg ho]
  exact h

/-- A line that is told of. -/
theorem AddsLine.speaks_line {e : Change α} {nodeId kind outcome : String}
    (h : e.AddsLine key ⟨nodeId, kind, outcome, now⟩ (some (nodeId, outcome, now)) w)
    (ho : outcome ∈ Step.toldOutcomes) : e.Speaks key now w := by
  refine .inr ⟨⟨nodeId, kind, outcome, now⟩, rfl, ?_⟩
  unfold Step.line?
  rw [if_pos ho]
  exact h

theorem advance_speaks {branch : Branch} {outcome : String} (ho : outcome ∉ Step.toldOutcomes) :
    (advance g c node branch outcome now).Speaks c.key now w := advance_adds.speaks ho

theorem fail_speaks {reason : String} : (fail key reason now).Speaks key now w := by
  obtain ⟨s, hs, hline, hadds⟩ := fail_adds key reason now w
  exact .inr ⟨s, hs, hline ▸ hadds⟩

theorem scheduleDelay_speaks {wait : Wait} :
    (scheduleDelay c node wait now).Speaks c.key now w := scheduleDelay_adds.speaks_line (by decide)

theorem reachGoal_speaks : (reachGoal c node now).Speaks c.key now w :=
  reachGoal_adds.speaks (by decide)

theorem resolve_speaks {k : Condition} {cause : Cause} :
    (resolve g c node k cause now).Speaks c.key now w := by
  unfold resolve
  split
  · exact .inl (.refl w)
  · split
    · exact .inl (.refl w)
    · next branch hb =>
      have hline : branch.name ∈ Step.toldOutcomes := by
        have hne := Verdict.branch?_ne_next (branch?_of_decisive hb)
        cases branch with
        | next => exact absurd rfl hne
        | _ => decide
      exact (advance_adds.report (.conditionResolved branch cause) rfl rfl
        fun _ _ => ⟨_, rfl⟩).speaks_line hline

/-- A cursor that comes to a condition gets a line, of which nothing is told. -/
theorem enterCondition_cases {k : Condition} :
    (∃ x v, (enterCondition g c node k now).on w = (.error x, v) ∧ w.Mute v) ∨
      ∃ d v, (enterCondition g c node k now).on w = (resolve g d node k .enter now).on v ∧
        d.key = c.key ∧ v.activities = w.activities ∧ w.Tells now [] v := by
  unfold enterCondition
  rcases on_after now k.wait.span w with ⟨deadline, -, hon⟩ | hon
  · rw [on_bind_ok hon]
    have hf : Plain fun c : Cursor =>
        { c with nextRun := some deadline, window := some ⟨node.id, now, deadline, []⟩ } :=
      ⟨fun _ => rfl, fun _ => rfl, fun _ => rfl⟩
    have hmove : (∃ x v, (move c.key node .waitingCondition "condition_entered" now _).on w =
        (.error x, v) ∧ w.Mute v) ∨ _ := move_told hf w
    rcases hmove with ⟨x, v, hon, hmute⟩ | ⟨d, v, hon, hd, hadds⟩
    · exact .inl ⟨x, v, on_bind_error hon, hmute⟩
    · exact .inr ⟨d, v, on_bind_ok hon, hd, hadds.activities, hadds.tells rfl (.silent rfl)⟩
  · exact .inl ⟨_, w, on_bind_error hon, .refl w⟩

theorem enterCondition_tells {k : Condition} :
    (enterCondition g c node k now).Keeps (Tells now []) := by
  intro w
  have hcases : (∃ x v, (enterCondition g c node k now).on w = (.error x, v) ∧ w.Mute v) ∨ _ :=
    enterCondition_cases
  rcases hcases with ⟨x, v, hon, hmute⟩ | ⟨d, v, hon, -, -, htells⟩
  · rw [hon]
    exact hmute.tells
  · rw [hon]
    exact htells.trans resolve_speaks.tells

theorem enterCondition_refused {k : Condition}
    (hx : (enterCondition g c node k now).on w = (.error x, v)) : v.activities = w.activities := by
  have hcases : (∃ x v, (enterCondition g c node k now).on w = (.error x, v) ∧ w.Mute v) ∨ _ :=
    enterCondition_cases
  rcases hcases with ⟨x', v', hon, hmute⟩ | ⟨d, v', hon, -, hsame, -⟩
  · rw [hx] at hon
    obtain ⟨-, rfl⟩ := Prod.mk.inj hon
    exact hmute.activities
  · exact (resolve_speaks.refused (hon.symm.trans hx)).trans hsame

theorem observe_speaks {k : Condition} {e : Engagement} :
    (observe g c node k e now).Speaks c.key now w := by
  unfold observe
  split
  · exact .inl (.refl w)
  · cases hc : w.cursors.find? c.key with
    | none =>
      unfold Speaks
      rw [on_bind_error (on_cursor_none hc)]
      exact .inl (.refl w)
    | some stored =>
      have hkey := CursorStore.key_eq_of_find? hc
      have hstored := hkey ▸ hc
      refine .of_mute (on_cursor_some hc) (.refl w) ?_
      split
      · exact .inl (.storeCursor hstored rfl rfl rfl)
      · next new ho =>
        obtain ⟨win, -, -, rfl⟩ := observed_eq_some ho
        refine .of_mute (on_apply _ w) (.storeCursor hstored rfl rfl rfl) ?_
        rw [← hkey]
        exact resolve_speaks (c := { stored with window := some (withEvent e now win) })

theorem mailFailed_speaks {policy : RetryPolicy} {reason : String} :
    (mailFailed policy c node reason now).Speaks c.key now w := by
  unfold mailFailed
  dsimp only
  split
  · exact fail_speaks
  · rcases on_after now (policy.backoff (c.retries + 1)) w with ⟨retryAt, -, hon⟩ | hon
    · refine .of_mute hon (.refl w) ?_
      have hmove : (move c.key node .waitingDelay "send_retry" now
          fun d => { d with retries := c.retries + 1, nextRun := some retryAt }).AddsLine c.key
          ⟨node.id, node.action.name, "send_retry", now⟩ none w :=
        move_adds rfl ⟨fun _ => rfl, fun _ => rfl, fun _ => rfl⟩
      exact (hmove.discard.report (.mailFailed (c.retries + 1) retryAt reason) rfl rfl
        fun _ _ => ⟨_, rfl⟩).speaks_line (by decide)
    · exact .inr ⟨⟨"", "", "", now⟩, rfl, .inl ⟨_, w, on_bind_error hon, .refl w⟩⟩

theorem cancel_speaks {reason : String} : (cancel key reason now).Speaks key now w := by
  unfold cancel
  cases hc : w.cursors.find? key with
  | none =>
    unfold Speaks
    rw [on_bind_error (on_cursor_none hc)]
    exact .inl (.refl w)
  | some c =>
    obtain rfl := CursorStore.key_eq_of_find? hc
    refine .of_mute (on_cursor_some hc) (.refl w) ?_
    cases hr : c.state.terminal with
    | true => exact .inl (.storeCursor hc rfl rfl rfl)
    | false =>
      have hline : "canceled: " ++ reason ∉ Step.toldOutcomes := by
        simp only [Step.toldOutcomes, List.mem_cons, List.not_mem_nil, or_false,
          ← String.toList_inj, String.toList_append]
        simp
      have hadds := Adds.of_store (s := ⟨c.nodeId, "cursor", "canceled: " ++ reason, now⟩)
        (d := canceled reason now c) hc hr rfl rfl
      have hdone : AddsLine c.key ⟨c.nodeId, "cursor", "canceled: " ++ reason, now⟩ none
          (do
            apply (·.storeCursor c (canceled reason now c))
            discard <| finish c c.nodeId .canceled (.canceled reason) now
            return true) w :=
        .inr ⟨true, _, .canceled, _, rfl, hadds.finish rfl (.canceled reason) c.nodeId now,
          .ended_one rfl⟩
      exact hdone.speaks hline

/-- What a cancellation that finds no running cursor tells is nothing. -/
theorem cancel_refused {reason : String} (hon : (cancel key reason now).on w = (.ok false, v)) :
    v.activities = w.activities := by
  cases hc : w.cursors.find? key with
  | none =>
    unfold cancel at hon
    rw [on_bind_error (on_cursor_none hc)] at hon
    cases hon
  | some c =>
    unfold cancel at hon
    rw [on_bind_ok (on_cursor_some hc)] at hon
    cases hr : c.state.terminal with
    | true =>
      rw [hr, if_pos rfl] at hon
      exact (Prod.mk.inj hon).2 ▸ rfl
    | false =>
      rw [hr, if_neg Bool.false_ne_true] at hon
      cases hon

/-! ## Mails -/

theorem mailSent_tells (g : Graph) (c : Cursor) (node : Node) (id : String) (now : Instant)
    (w : World) : w.Tells now [c.key] ((mailSent g c node id now).on w).2 := by
  have hcount : w.Tells now [] (w.count (sentEvent c id now) (some c.key) now) :=
    (Mute.count w _ _ _).tells
  exact (hcount.trans (tells_mailed _ c id node.id now)).trans (advance_speaks (by decide)).tells

/-- The answer to a mail is settled, and a mail that was accepted is told of. -/
theorem settleMail_tells (policy : RetryPolicy) (g : Graph) (c : Cursor) (node : Node)
    (now : Instant) (result : Except SendFault String) (w : World) :
    w.Tells now (result.toOption.toList.map fun _ => c.key)
      ((settleMail policy g c node now result).on w).2 := by
  rcases result with (reason | reason) | id
  · exact mailFailed_speaks.tells
  · exact fail_speaks.tells
  · exact mailSent_tells g c node id now w

/-- The changes with which a cursor makes a transition. -/
inductive Transition : Change Outcome → Prop
  | advance (g : Graph) (c : Cursor) (node : Node) (branch : Branch) (outcome : String)
      (now : Instant) : Transition (advance g c node branch outcome now)
  | fail (key : CursorKey) (reason : String) (now : Instant) : Transition (fail key reason now)
  | scheduleDelay (c : Cursor) (node : Node) (wait : Wait) (now : Instant) :
      Transition (scheduleDelay c node wait now)
  | reachGoal (c : Cursor) (node : Node) (now : Instant) : Transition (reachGoal c node now)
  | resolve (g : Graph) (c : Cursor) (node : Node) (k : Condition) (cause : Cause) (now : Instant) :
      Transition (resolve g c node k cause now)
  | enterCondition (g : Graph) (c : Cursor) (node : Node) (k : Condition) (now : Instant) :
      Transition (enterCondition g c node k now)
  | observe (g : Graph) (c : Cursor) (node : Node) (k : Condition) (e : Engagement) (now : Instant) :
      Transition (observe g c node k e now)
  | mailFailed (policy : RetryPolicy) (c : Cursor) (node : Node) (reason : String) (now : Instant) :
      Transition (mailFailed policy c node reason now)

/-- A transition that is refused tells nothing. -/
theorem Transition.refused {e : Change Outcome} (h : Transition e)
    (hon : e.on w = (.error x, v)) : v.activities = w.activities := by
  cases h with
  | advance => exact advance_adds.refused hon
  | fail => exact fail_speaks.refused hon
  | scheduleDelay => exact scheduleDelay_speaks.refused hon
  | reachGoal => exact reachGoal_speaks.refused hon
  | resolve => exact resolve_speaks.refused hon
  | enterCondition => exact enterCondition_refused hon
  | observe => exact observe_speaks.refused hon
  | mailFailed => exact mailFailed_speaks.refused hon

/-- When a cursor may not leave its step after its mail, the mail alone is told of. -/
theorem mailSent_refused {id : String} (hon : (mailSent g c node id now).on w = (.error x, v)) :
    v.activities = c.activity (.mailSent id) node.id now :: w.activities := by
  let u := (w.count (sentEvent c id now) (some c.key) now).report c (.mailSent id) node.id now
  have hadvance : (advance g c node .next "sent" now).on u = (.error x, v) := hon
  rw [advance_adds.refused hadvance]
  exact congrArg (_ :: ·) (Mute.count w _ _ _).activities

/-! ## Control -/

theorem requireCampaign_mute {campaign : Uuid} : (requireCampaign campaign).Keeps Mute := by
  intro w
  rw [on_requireCampaign]
  split <;> exact .refl w

theorem setStatus_mute {campaign : Uuid} {status : CampaignStatus} :
    (apply (·.setStatus campaign status)).Keeps Mute := .apply fun _ => .of_eq rfl rfl rfl

theorem cancel_tells {reason : String} : (cancel key reason now).Keeps (Tells now []) :=
  fun _ => cancel_speaks.tells

theorem cancelRunning_tells {campaign : Uuid} {reason : String} :
    (cancelRunning campaign reason now).Keeps (Tells now []) :=
  .get fun w => Keeps.cancelAll (fun _ => cancel_tells) _ w

theorem pause_tells {campaign : Uuid} : (pause campaign now).Keeps (Tells now []) := by
  refine requireCampaign_mute.mute.bind fun _ => .get fun w => ?_
  split
  · exact .refl w
  · exact (setStatus_mute.mute.bind fun _ => cancelRunning_tells) w

theorem cancelCampaign_tells {campaign : Uuid} :
    (cancelCampaign campaign now).Keeps (Tells now []) :=
  requireCampaign_mute.mute.bind fun _ => setStatus_mute.mute.bind fun _ => cancelRunning_tells

theorem resume_mute {campaign : Uuid} : (resume campaign).Keeps Mute := by
  refine requireCampaign_mute.bind fun _ => .get fun w => ?_
  cases w.status campaign with
  | paused => exact setStatus_mute w
  | _ => exact .refl w

theorem activate_mute {campaign : Uuid} {document : Document} :
    (activate campaign document now).Keeps Mute := by
  refine .get fun w => ?_
  by_cases hs : w.status campaign = .canceled
  · rw [if_pos hs]
    exact .refl w
  · rw [if_neg hs]
    cases w.flows.activate (Uuid.ofNat w.nextId) campaign document now with
    | error v => exact .refl w
    | ok stored => exact .of_eq rfl rfl rfl

/-! ## Events and upkeep -/

theorem receive_mute {e : Engagement} : (receive e now).Keeps Mute := by
  refine .get fun w => ?_
  cases w.seen.receive e.key now with
  | none => exact .refl w
  | some seen => exact .of_eq rfl rfl rfl

theorem settle_mute {k : String} : (settle k).Keeps Mute := by
  refine .get fun w => ?_
  rcases w.seen.settle k with ⟨seen, _ | time⟩ <;> exact .of_eq rfl rfl rfl

theorem count_mute {e : Engagement} : (apply (·.count e none now)).Keeps Mute :=
  .apply fun w => .count w _ _ _

theorem ingestHalting_tells {e : Engagement} : (ingestHalting e now).Keeps (Tells now []) :=
  .ingestHalting receive_mute.mute count_mute.mute (fun _ => cancel_tells) settle_mute.mute

theorem prune_mute {ttlHours : UInt64} : (prune ttlHours now).Keeps Mute :=
  Keeps.bind (.need _ _) fun _ => Keeps.bind (.need _ _) fun _ => .get fun _ => .of_eq rfl rfl rfl

/-! ## New cursors -/

theorem addLead_tells {campaign : Uuid} {lead : Lead} :
    (Engine.addLead campaign lead now).Keeps (Tells now []) := by
  refine .get fun w => ?_
  by_cases hs : (w.status campaign).halts = true
  · rw [if_pos hs]
    exact .refl w
  rw [if_neg hs]
  cases w.flows.active? campaign with
  | none => exact .refl w
  | some g =>
    rw [on_bind_ok (on_need_some _ g w)]
    dsimp only
    cases hi : w.cursors.insert (Engine.newCursor (Uuid.ofNat w.nextId) g campaign lead.id now) with
    | error x => exact .refl w
    | ok cursors =>
      obtain ⟨hn, rfl⟩ := CursorStore.insert_eq_ok_iff.1 hi
      exact tells_enrolled hn rfl rfl rfl rfl rfl

end Change

end MailCampaign
