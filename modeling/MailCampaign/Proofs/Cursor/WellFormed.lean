import MailCampaign.Proofs.Cursor.Turn
import MailCampaign.Proofs.Flow.Legal

/-!
# Well-formed cursors

A cursor is well formed when its timer, its window and its marks agree with its state, and when it is
at a step of its version that fits the state. A new cursor is well formed, and so is every cursor that
a well-formed one turns into:

1. An entering cursor has neither timer nor window, so leaving it as it is opens both for the first
   time (`delayed`, `watched`) and a goal may leave them alone (`reached`).
2. A cursor leaves a waiting state through `moveTo` or `release`, which clear both.
3. The window of a condition is opened with its deadline as the timer and only grows by events that
   the condition listens for (`noted`).
-/

namespace MailCampaign

/-- A store that has all versions of another. -/
def FlowStore.Grows (s t : FlowStore) : Prop := ∀ id g, s.find? id = some g → t.find? id = some g

theorem FlowStore.Grows.refl (s : FlowStore) : s.Grows s := fun _ _ h => h

theorem FlowStore.Grows.trans {s t u : FlowStore} (h : s.Grows t) (h' : t.Grows u) : s.Grows u :=
  fun id g hg => h' id g (h id g hg)

/-- The window of a condition: for its step, as long as the condition waits, over when the timer is
due, and with nothing but what the condition listens for. -/
structure Window.Fits (w : Window) (nodeId : String) (nextRun : Option Instant) (k : Condition) :
    Prop where
  nodeId : w.nodeId = nodeId
  due : nextRun = some w.deadline
  lasts : w.opens.add? k.wait.span = some w.deadline
  observed : ∀ o ∈ w.observed, k.watch.covers o.signal = true ∧ w.opens ≤ o.time

/-- A window still fits after an event that its condition listens for. -/
theorem Window.Fits.withEvent {w : Window} {nodeId : String} {nextRun : Option Instant}
    {k : Condition} (h : w.Fits nodeId nextRun k) {e : Engagement}
    (he : k.watch.covers e.kind = true) (now : Instant) :
    (Change.withEvent e now w).Fits nodeId nextRun k where
  nodeId := h.nodeId
  due := h.due
  lasts := h.lasts
  observed := by
    intro o ho
    rcases List.mem_append.1 ho with ho | ho
    · exact h.observed o ho
    · rw [List.mem_singleton.1 ho]
      exact ⟨he, Instant.le_later _ _⟩

namespace Cursor

/-- A step that fits the state of a cursor which is at it. -/
def Fits (c : Cursor) (g : Graph) (node : Node) : Prop :=
  match c.state with
  | .pending => node = g.entry ∧ c.history = []
  | .active => True
  | .waitingDelay => node.Mails ∨ node.Delays
  | .waitingCondition =>
    ∃ k w, node.action = .condition k ∧ c.window = some w ∧ w.Fits c.nodeId c.nextRun k
  | .completed => node.Mails ∨ node.Delays
  | .goalReached => node.IsGoal
  | .failed => True
  | .canceled => True

/-- A cursor that agrees with itself and with its version of the flow. -/
structure WellFormed (flows : FlowStore) (c : Cursor) : Prop where
  /-- It has a timer exactly while it waits. -/
  timed : c.nextRun.isSome = true ↔ c.state.waiting = true
  /-- It has a window exactly while it waits at a condition. -/
  windowed : c.window.isSome = true ↔ c.state = .waitingCondition
  /-- It has the time of a goal exactly when it reached one. -/
  goal : c.goalReachedAt.isSome = true ↔ c.state = .goalReached
  /-- It has a reason of failure exactly when it failed. -/
  failure : c.failure.isSome = true ↔ c.state = .failed
  /-- It is at a step that fits its state, and has failed attempts only at a mail. -/
  placed : ∃ g node, c.At flows g node ∧ c.Fits g node ∧ (c.retries ≠ 0 → node.Mails)

variable {policy : RetryPolicy} {flows : FlowStore} {c d : Cursor} {g : Graph} {node : Node}

theorem At.unique {g' : Graph} {node' : Node} (h : c.At flows g node) (h' : c.At flows g' node') :
    g' = g ∧ node' = node := by
  have hg : g' = g := Option.some.inj (h'.version.symm.trans h.version)
  subst hg
  exact ⟨rfl, Option.some.inj (h'.step.symm.trans h.step)⟩

theorem At.mono {flows' : FlowStore} (h : c.At flows g node) (hf : flows.Grows flows') :
    c.At flows' g node := ⟨hf _ _ h.version, h.step⟩

namespace WellFormed

theorem mono {flows' : FlowStore} (h : c.WellFormed flows) (hf : flows.Grows flows') :
    c.WellFormed flows' := by
  obtain ⟨g, node, hat, hfit⟩ := h.placed
  exact { h with placed := ⟨g, node, hat.mono hf, hfit⟩ }

/-- At the step of a well-formed cursor, the step fits its state. -/
theorem fits (h : c.WellFormed flows) (hat : c.At flows g node) :
    c.Fits g node ∧ (c.retries ≠ 0 → node.Mails) := by
  obtain ⟨g', node', hat', hfit⟩ := h.placed
  obtain ⟨rfl, rfl⟩ := hat.unique hat'
  exact hfit

theorem nextRun_eq_none (h : c.WellFormed flows) (hw : c.state.waiting = false) :
    c.nextRun = none := by
  cases hn : c.nextRun with
  | none => rfl
  | some t =>
    have := h.timed.1 (by rw [hn]; rfl)
    rw [hw] at this
    cases this

theorem window_eq_none (h : c.WellFormed flows) (hw : c.state ≠ .waitingCondition) :
    c.window = none := by
  cases hn : c.window with
  | none => rfl
  | some w => exact absurd (h.windowed.1 (by rw [hn]; rfl)) hw

theorem goalReachedAt_eq_none (h : c.WellFormed flows) (hr : c.state.terminal = false) :
    c.goalReachedAt = none := by
  cases hn : c.goalReachedAt with
  | none => rfl
  | some t =>
    have := h.goal.1 (by rw [hn]; rfl)
    rw [this] at hr
    cases hr

theorem failure_eq_none (h : c.WellFormed flows) (hr : c.state.terminal = false) :
    c.failure = none := by
  cases hn : c.failure with
  | none => rfl
  | some t =>
    have := h.failure.1 (by rw [hn]; rfl)
    rw [this] at hr
    cases hr

theorem entering (h : c.WellFormed flows) (he : c.state.entering = true) :
    c.nextRun = none ∧ c.window = none := by
  refine ⟨h.nextRun_eq_none ?_, h.window_eq_none ?_⟩ <;> cases hs : c.state <;>
    simp_all [CursorState.entering, CursorState.waiting]

/-! ## What preserves it -/

/-- A cursor is well formed when it enters a version. -/
theorem new {id campaign : Uuid} {leadId : String} {now : Instant}
    (hg : flows.find? g.id = some g) (he : g.node? g.entry.id = some g.entry) :
    (⟨id, g.id, campaign, leadId, g.entry.id, .pending, none, {}, 0, none, now, now, none, none,
      []⟩ : Cursor).WellFormed flows where
  timed := by simp [CursorState.waiting]
  windowed := by simp
  goal := by simp
  failure := by simp
  placed := ⟨g, g.entry, ⟨hg, he⟩, ⟨rfl, rfl⟩, fun h => absurd rfl h⟩

/-- A cursor that fails or is canceled keeps its step. -/
theorem ended (h : c.WellFormed flows) (hr : c.state.terminal = false) {kind outcome : String}
    {state : CursorState} {now : Instant} {failure : Option String}
    (hs : state = .failed ∧ failure.isSome = true ∨ state = .canceled ∧ failure = c.failure) :
    ({ (c.log kind outcome state now).release with failure } : Cursor).WellFormed flows := by
  obtain ⟨g, node, hat, -, hm⟩ := h.placed
  have hgoal := h.goalReachedAt_eq_none hr
  have hfail := h.failure_eq_none hr
  rcases hs with ⟨rfl, hf⟩ | ⟨rfl, rfl⟩
  · exact {
      timed := by simp [release, log, CursorState.waiting]
      windowed := by simp [release, log]
      goal := by simp [release, log, hgoal]
      failure := by simp [release, log, hf]
      placed := ⟨g, node, ⟨hat.version, hat.step⟩, trivial, hm⟩ }
  · exact {
      timed := by simp [release, log, CursorState.waiting]
      windowed := by simp [release, log]
      goal := by simp [release, log, hgoal]
      failure := by simp [release, log, hfail]
      placed := ⟨g, node, ⟨hat.version, hat.step⟩, trivial, hm⟩ }

theorem canceled (h : c.WellFormed flows) (hr : c.state.terminal = false) (reason : String)
    (now : Instant) : (Change.canceled reason now c).WellFormed flows :=
  h.ended hr (.inr ⟨rfl, rfl⟩)

theorem counted (h : c.WellFormed flows) (e : Engagement) :
    (World.counted e c).WellFormed flows := by
  rw [counted_eq]
  obtain ⟨g, node, hat, hfit⟩ := h.placed
  exact ⟨h.timed, h.windowed, h.goal, h.failure, g, node, ⟨hat.version, hat.step⟩, hfit⟩

/-- A well-formed cursor turns into well-formed ones. -/
theorem turn (h : c.WellFormed flows) (ht : c.Turn policy flows d) : d.WellFormed flows := by
  have hgoal := h.goalReachedAt_eq_none ht.running
  have hfail := h.failure_eq_none ht.running
  cases ht with
  | @moved g node next branch outcome now hat hl hn =>
    exact {
      timed := by simp [moveTo, log, CursorState.waiting]
      windowed := by simp [moveTo, log]
      goal := by simp [moveTo, log, hgoal]
      failure := by simp [moveTo, log, hfail]
      placed := ⟨g, next, ⟨hat.version, Graph.node?_of_next? hn⟩, trivial, fun h => absurd rfl h⟩ }
  | @completed g node branch outcome now hat hl hn hb =>
    have hkind : node.Mails ∨ node.Delays := by
      cases hl with
      | sent h => exact .inl ⟨_, h⟩
      | elapsed h => exact .inr ⟨_, h⟩
      | answered _ hs =>
        rw [hs] at hb
        cases hb
    exact {
      timed := by simp [release, log, CursorState.waiting]
      windowed := by simp [release, log]
      goal := by simp [release, log, hgoal]
      failure := by simp [release, log, hfail]
      placed := ⟨g, node, ⟨hat.version, hat.step⟩, hkind, (h.fits hat).2⟩ }
  | @delayed g node wait now fireAt hat ha he ht =>
    have hwin := (h.entering he).2
    exact {
      timed := by simp [log, CursorState.waiting]
      windowed := by simp [log, hwin]
      goal := by simp [log, hgoal]
      failure := by simp [log, hfail]
      placed := ⟨g, node, ⟨hat.version, hat.step⟩, .inr ⟨_, ha⟩, (h.fits hat).2⟩ }
  | @retried g node mail now retryAt hat ha hs hr ht =>
    have hwin : c.window = none := by
      refine h.window_eq_none fun hw => ?_
      unfold Sendable at hs
      rw [hw] at hs
      rcases hs with hs | ⟨hs, -⟩ <;> cases hs
    exact {
      timed := by simp [log, CursorState.waiting]
      windowed := by simp [log, hwin]
      goal := by simp [log, hgoal]
      failure := by simp [log, hfail]
      placed := ⟨g, node, ⟨hat.version, hat.step⟩, .inl ⟨_, ha⟩, fun _ => ⟨_, ha⟩⟩ }
  | @watched g node k now deadline hat ha he ht =>
    have hwindow : (⟨node.id, now, deadline, []⟩ : Window).Fits c.nodeId (some deadline) k :=
      ⟨hat.nodeId.symm, rfl, ht, fun o ho => absurd ho List.not_mem_nil⟩
    exact {
      timed := by simp [log, CursorState.waiting]
      windowed := by simp [log]
      goal := by simp [log, hgoal]
      failure := by simp [log, hfail]
      placed := ⟨g, node, ⟨hat.version, hat.step⟩, ⟨k, _, ha, rfl, hwindow⟩, (h.fits hat).2⟩ }
  | @noted g node k w e now hat ha hs hw hn hc he =>
    have hfit := (h.fits hat).1
    unfold Fits at hfit
    rw [hs] at hfit
    obtain ⟨k', w', ha', hw', hwindow⟩ := hfit
    obtain rfl : k' = k := by injection ha'.symm.trans ha
    obtain rfl : w' = w := Option.some.inj (hw'.symm.trans hw)
    refine ⟨h.timed, ?_, h.goal, h.failure, g, node, ⟨hat.version, hat.step⟩, ?_, (h.fits hat).2⟩
    · simp [hs]
    · unfold Fits
      rw [hs]
      exact ⟨k', _, ha, rfl, hwindow.withEvent he now⟩
  | @reached g node goal now hat ha he =>
    obtain ⟨hrun, hwin⟩ := h.entering he
    exact {
      timed := by simp [log, CursorState.waiting, hrun]
      windowed := by simp [log, hwin]
      goal := by simp [log]
      failure := by simp [log, hfail]
      placed := ⟨g, node, ⟨hat.version, hat.step⟩, ⟨_, ha⟩, (h.fits hat).2⟩ }
  | failed reason now hr => exact h.ended hr (.inl ⟨rfl, rfl⟩)

end WellFormed

end Cursor

end MailCampaign
