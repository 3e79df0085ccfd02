import MailCampaign.World.Move

/-!
# The turns of a cursor

A stored cursor changes in few ways: it leaves its step for the next one or for good, it parks at a
delay, at a failed mail or at a condition, it notes an event in its window, it reaches a goal, or it
fails. Each way is one case of `Turn`, with what has to hold for it. Besides its turns a cursor is
only canceled and counted on.
-/

namespace MailCampaign

/-- A state in which a cursor waits for its timer. -/
def CursorState.waiting : CursorState → Bool
  | .waitingDelay | .waitingCondition => true
  | _ => false

theorem CursorState.terminal_of_entering {a : CursorState} (h : a.entering = true) :
    a.terminal = false := by
  cases a <;> first | rfl | cases h

theorem CursorState.entering_of_terminal {a : CursorState} (h : a.terminal = true) :
    a.entering = false := by
  cases a <;> first | rfl | cases h

theorem CursorState.waiting_of_terminal {a : CursorState} (h : a.terminal = true) :
    a.waiting = false := by
  cases a <;> first | rfl | cases h

/-- A cursor that still runs has just come to its step or waits there. -/
theorem CursorState.entering_or_waiting {a : CursorState} (h : a.terminal = false) :
    a.entering = true ∨ a.waiting = true := by
  cases a <;> first | exact .inl rfl | exact .inr rfl | cases h

namespace Cursor

/-- The step at which a cursor is, in its version of the flow. -/
structure At (flows : FlowStore) (c : Cursor) (g : Graph) (node : Node) : Prop where
  version : flows.find? c.flowId = some g
  step : g.node? c.nodeId = some node

theorem At.nodeId {flows : FlowStore} {c : Cursor} {g : Graph} {node : Node}
    (h : c.At flows g node) : c.nodeId = node.id := (Graph.id_of_node? h.step).symm

/-- A cursor whose mail may be sent: it has just come to its step, or its timer is due. -/
def Sendable (c : Cursor) (now : Instant) : Prop :=
  c.state.entering = true ∨ c.state = .waitingDelay ∧ c.dueAt now = true

/-- How a cursor leaves a step: the branch, and the outcome that its history names. -/
inductive Leaves (c : Cursor) (node : Node) (now : Instant) : Branch → String → Prop
  | sent {mail : Mail} : node.action = .email mail → c.Sendable now →
      Leaves c node now .next "sent"
  | elapsed {wait : Wait} : node.action = .delay wait → c.state = .waitingDelay →
      c.dueAt now = true → Leaves c node now .next "delay_elapsed"
  | answered {k : Condition} {w : Window} {cause : Cause} {branch : Branch} :
      node.action = .condition k → c.state = .waitingCondition → c.window = some w →
      w.nodeId = node.id → Change.decisive k cause (Verdict.ofWindow k w now) = some branch →
      Leaves c node now branch branch.name

theorem Leaves.running {c : Cursor} {node : Node} {now : Instant} {branch : Branch}
    {outcome : String} (h : c.Leaves node now branch outcome) : c.state.terminal = false := by
  cases h with
  | sent _ h =>
    rcases h with h | ⟨h, -⟩
    · exact CursorState.terminal_of_entering h
    · rw [h]; rfl
  | elapsed _ h => rw [h]; rfl
  | answered _ h => rw [h]; rfl

/-- The turns of a cursor, under a policy for failed mails. -/
inductive Turn (policy : RetryPolicy) (flows : FlowStore) (c : Cursor) : Cursor → Prop
  /-- It leaves its step for the next one. -/
  | moved {g : Graph} {node next : Node} {branch : Branch} {outcome : String} {now : Instant} :
      c.At flows g node → c.Leaves node now branch outcome →
      g.next? node.id branch = some next →
      Turn policy flows c ((c.log node.action.name outcome .active now).moveTo next.id)
  /-- It leaves its step, and no step follows. -/
  | completed {g : Graph} {node : Node} {branch : Branch} {outcome : String} {now : Instant} :
      c.At flows g node → c.Leaves node now branch outcome → g.next? node.id branch = none →
      c.state.mayBecome .completed = true →
      Turn policy flows c (c.log node.action.name outcome .completed now).release
  /-- It parks at a delay. -/
  | delayed {g : Graph} {node : Node} {wait : Wait} {now fireAt : Instant} :
      c.At flows g node → node.action = .delay wait → c.state.entering = true →
      now.add? wait.span = some fireAt →
      Turn policy flows c { c.log node.action.name "delay_scheduled" .waitingDelay now with
        nextRun := some fireAt }
  /-- It waits for another attempt at its mail. -/
  | retried {g : Graph} {node : Node} {mail : Mail} {now retryAt : Instant} :
      c.At flows g node → node.action = .email mail → c.Sendable now →
      c.retries + 1 ≤ policy.limit →
      now.add? (policy.backoff (c.retries + 1)) = some retryAt →
      Turn policy flows c { c.log node.action.name "send_retry" .waitingDelay now with
        retries := c.retries + 1, nextRun := some retryAt }
  /-- It opens the window of a condition. -/
  | watched {g : Graph} {node : Node} {k : Condition} {now deadline : Instant} :
      c.At flows g node → node.action = .condition k → c.state.entering = true →
      now.add? k.wait.span = some deadline →
      Turn policy flows c { c.log node.action.name "condition_entered" .waitingCondition now with
        nextRun := some deadline, window := some ⟨node.id, now, deadline, []⟩ }
  /-- It notes an event in its window. -/
  | noted {g : Graph} {node : Node} {k : Condition} {w : Window} {e : Engagement}
      {now : Instant} :
      c.At flows g node → node.action = .condition k → c.state = .waitingCondition →
      c.window = some w → w.nodeId = node.id → e.campaignId = c.campaignId →
      k.watch.covers e.kind = true →
      Turn policy flows c { c with window := some (Change.withEvent e now w) }
  /-- It reaches a goal. -/
  | reached {g : Graph} {node : Node} {goal : Goal} {now : Instant} :
      c.At flows g node → node.action = .goal goal → c.state.entering = true →
      Turn policy flows c { c.log node.action.name "goal_reached" .goalReached now with
        goalReachedAt := some now }
  /-- It fails. -/
  | failed (reason : String) (now : Instant) : c.state.terminal = false →
      Turn policy flows c { (c.log "cursor" "failed" .failed now).release with
        failure := some reason }

variable {policy : RetryPolicy} {flows : FlowStore} {c d : Cursor}

/-- A cursor that ended takes no turn. -/
theorem Turn.running (h : c.Turn policy flows d) : c.state.terminal = false := by
  cases h with
  | moved _ h => exact h.running
  | completed _ h => exact h.running
  | delayed _ _ h => exact CursorState.terminal_of_entering h
  | retried _ _ h =>
    rcases h with h | ⟨h, -⟩
    · exact CursorState.terminal_of_entering h
    · rw [h]; rfl
  | watched _ _ h => exact CursorState.terminal_of_entering h
  | noted _ _ h => rw [h]; rfl
  | reached _ _ h => exact CursorState.terminal_of_entering h
  | failed _ _ h => exact h

/-- What a cursor is for: its lead in a version, in a campaign. -/
structure SameLead (c d : Cursor) : Prop where
  key : d.key = c.key
  id : d.id = c.id
  campaignId : d.campaignId = c.campaignId

theorem SameLead.refl (c : Cursor) : c.SameLead c := ⟨rfl, rfl, rfl⟩

theorem SameLead.trans {e : Cursor} (h : c.SameLead d) (h' : d.SameLead e) : c.SameLead e :=
  ⟨h'.key.trans h.key, h'.id.trans h.id, h'.campaignId.trans h.campaignId⟩

theorem Turn.sameLead (h : c.Turn policy flows d) : c.SameLead d := by
  cases h <;> exact ⟨rfl, rfl, rfl⟩

/-- A turn adds lines to the history, or none. -/
theorem Turn.history (h : c.Turn policy flows d) : c.history <+: d.history := by
  cases h <;> first | exact List.prefix_append _ _ | exact List.prefix_rfl

theorem sameLead_canceled (reason : String) (now : Instant) (c : Cursor) :
    c.SameLead (Change.canceled reason now c) := ⟨rfl, rfl, rfl⟩

/-- Counting an event changes nothing but the counters. -/
theorem counted_eq (e : Engagement) (c : Cursor) :
    World.counted e c = { c with counters := (World.counted e c).counters } := by
  unfold World.counted
  split <;> rfl

/-- Counting an event does not change a cursor that ended. -/
theorem counted_of_terminal {e : Engagement} {c : Cursor} (h : c.state.terminal = true) :
    World.counted e c = c := by
  unfold World.counted
  rw [h, Bool.or_true, if_pos rfl]

/-- A cursor that was at most canceled or counted on. -/
def Idled (c d : Cursor) : Prop := d.state.terminal = true ∨ d = { c with counters := d.counters }

theorem sameLead_counted (e : Engagement) (c : Cursor) : c.SameLead (World.counted e c) := by
  rw [counted_eq]
  exact ⟨rfl, rfl, rfl⟩

end Cursor

end MailCampaign
