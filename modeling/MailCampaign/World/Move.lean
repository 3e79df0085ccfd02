import MailCampaign.Cursor.Transition
import MailCampaign.Cursor.Verdict
import MailCampaign.Retry
import MailCampaign.Text.Numeral
import MailCampaign.World.Basic

/-!
# Moving cursors

The moves of one cursor. Each is a revision of the stored cursor that is refused when the cursor has
left the step or may not change its state so; a move into a terminal state is counted and reported.
-/

namespace MailCampaign

/-- What woke a cursor up. -/
inductive Trigger where
  /-- It came to its step. -/
  | enter
  /-- Its timer ran out. -/
  | timer
  /-- Its lead was seen to do something. -/
  | event (e : Engagement)

/-- The kind of a trigger. -/
def Trigger.cause : Trigger → Cause
  | .enter => .enter
  | .timer => .timer
  | .event _ => .event

/-- What came of running a step. -/
inductive Outcome where
  /-- The cursor moved on to a step that is to run at once. -/
  | moved
  /-- The cursor waits. -/
  | parked
  /-- The cursor ended in a state. -/
  | finished (state : CursorState)
  /-- The trigger meant nothing to the cursor. -/
  | ignored
deriving DecidableEq

/-- The cursor with one more line of history and a new state. -/
def Cursor.log (c : Cursor) (kind outcome : String) (state : CursorState) (now : Instant) : Cursor :=
  { c with history := c.history ++ [⟨c.nodeId, kind, outcome, now⟩], state, updatedAt := now }

/-- The cursor at the next step. -/
def Cursor.moveTo (c : Cursor) (nodeId : String) : Cursor :=
  { c with nodeId, nextRun := none, retries := 0, window := none }

/-- The cursor that waits for nothing any more. -/
def Cursor.release (c : Cursor) : Cursor := { c with nextRun := none, window := none }

namespace Change

/-- Checks that a cursor may change its state so. -/
def permit (c : Cursor) (state : CursorState) (new : Cursor) : Except Fault Cursor :=
  if c.state.mayBecome state then .ok new else .error (.clash (.transition c.state state))

/-- Gives the cursor at a step a new state and changes it further. -/
def move (key : CursorKey) (node : Node) (state : CursorState) (outcome : String) (now : Instant)
    (f : Cursor → Cursor) : Change Cursor :=
  revise key fun c =>
    if c.nodeId != node.id then .error (.clash (.moved key node.id))
    else permit c state (f (c.log node.action.name outcome state now))

/-- Counts and reports the end of a cursor at a step. -/
def finish (c : Cursor) (nodeId : String) (state : CursorState) (milestone : Milestone)
    (now : Instant) : Change Outcome := do
  apply fun w => (w.countOutcome c.campaignId state).report c milestone nodeId now
  return .finished state

/-- Ends a cursor as failed. -/
def fail (key : CursorKey) (reason : String) (now : Instant) : Change Outcome := do
  let c ← revise key fun c => permit c .failed
    { (c.log "cursor" "failed" .failed now).release with failure := some reason }
  finish c c.nodeId .failed (.failed reason) now

/-- The canceled form of a cursor. -/
def canceled (reason : String) (now : Instant) (c : Cursor) : Cursor :=
  (c.log "cursor" ("canceled: " ++ reason) .canceled now).release

/-- Cancels a cursor that still runs, and says whether it did. -/
def cancel (key : CursorKey) (reason : String) (now : Instant) : Change Bool := do
  let c ← cursor key
  if c.state.terminal then
    apply (·.storeCursor c c)
    return false
  else
    apply (·.storeCursor c (canceled reason now c))
    discard <| finish c c.nodeId .canceled (.canceled reason) now
    return true

/-- Cancels each cursor of a list that still runs, and counts them. -/
def cancelAll (reason : String) (now : Instant) : List CursorKey → Change Nat
  | [] => return 0
  | key :: rest => do
    let done ← cancel key reason now
    let others ← cancelAll reason now rest
    return others + if done then 1 else 0

/-- Moves a cursor on a branch to the next step, or completes it when there is none. -/
def advance (g : Graph) (c : Cursor) (node : Node) (branch : Branch) (outcome : String)
    (now : Instant) : Change Outcome :=
  match g.next? node.id branch with
  | some next => do
    discard <| move c.key node .active outcome now fun c => c.moveTo next.id
    return .moved
  | none => do
    discard <| move c.key node .completed outcome now Cursor.release
    finish c node.id .completed .completed now

/-! ## Delays and goals -/

/-- The instant a span from now. -/
def after (now : Instant) (d : Span) : Change Instant := need .outOfRange (now.add? d)

/-- Parks a cursor at a delay. -/
def scheduleDelay (c : Cursor) (node : Node) (wait : Wait) (now : Instant) : Change Outcome := do
  let fireAt ← after now wait.span
  discard <| move c.key node .waitingDelay "delay_scheduled" now
    fun c => { c with nextRun := some fireAt }
  apply (·.report c (.delayScheduled fireAt) node.id now)
  return .parked

/-- Ends a cursor at a goal. -/
def reachGoal (c : Cursor) (node : Node) (now : Instant) : Change Outcome := do
  discard <| move c.key node .goalReached "goal_reached" now
    fun c => { c with goalReachedAt := some now }
  finish c node.id .goalReached .goalReached now

/-! ## Conditions -/

/-- The verdict on which a cursor leaves a condition; an event does not bring about a timeout. -/
def decisive (condition : Condition) (cause : Cause) (v : Verdict) : Option Branch :=
  if cause = .event ∧ v = Verdict.onTimeout condition.mode then none else v.branch?

/-- Lets a cursor leave its condition when the condition has an answer. -/
def resolve (g : Graph) (c : Cursor) (node : Node) (condition : Condition) (cause : Cause)
    (now : Instant) : Change Outcome :=
  match c.window.filter fun w => w.nodeId == node.id with
  | none => return .ignored
  | some w =>
    match decisive condition cause (Verdict.ofWindow condition w now) with
    | none => return .parked
    | some branch => do
      let outcome ← advance g c node branch branch.name now
      apply (·.report c (.conditionResolved branch cause) node.id now)
      return outcome

/-- Opens the window of a condition; an empty window is over at once. -/
def enterCondition (g : Graph) (c : Cursor) (node : Node) (condition : Condition) (now : Instant) :
    Change Outcome := do
  let deadline ← after now condition.wait.span
  let c ← move c.key node .waitingCondition "condition_entered" now fun c =>
    { c with nextRun := some deadline, window := some ⟨node.id, now, deadline, []⟩ }
  resolve g c node condition .enter now

/-- When an event counts as observed in a window: as reported, but not after its receipt and not
before the window opened. -/
def observedAt (e : Engagement) (w : Window) (now : Instant) : Instant :=
  (e.time.earlier now).later w.opens

/-- The window with an event. -/
def withEvent (e : Engagement) (now : Instant) (w : Window) : Window :=
  { w with observed := w.observed ++ [⟨e.kind, observedAt e w now⟩] }

/-- The cursor with an event in the window in which it waits at a step. -/
def observed (e : Engagement) (node : Node) (now : Instant) (c : Cursor) : Option Cursor :=
  match c.window with
  | some w =>
    if c.state = .waitingCondition ∧ w.nodeId = node.id then
      some { c with window := some (withEvent e now w) }
    else none
  | none => none

/-- Notes an event for a condition that listens for it, and lets the cursor leave when that answers
the condition. -/
def observe (g : Graph) (c : Cursor) (node : Node) (condition : Condition) (e : Engagement)
    (now : Instant) : Change Outcome := do
  if e.campaignId != c.campaignId || !condition.watch.covers e.kind then return .ignored
  else
    let stored ← cursor c.key
    match observed e node now stored with
    | none =>
      apply (·.storeCursor stored stored)
      return .ignored
    | some new =>
      apply (·.storeCursor stored new)
      resolve g new node condition .event now

/-! ## Mails -/

/-- The event of a mail that was sent. -/
def sentEvent (c : Cursor) (messageId : String) (now : Instant) : Engagement :=
  ⟨c.leadId, c.campaignId, .sent, now, messageId ++ ":" ++ EngagementKind.sent.name, {}⟩

/-- Goes on after a mail was sent. -/
def mailSent (g : Graph) (c : Cursor) (node : Node) (messageId : String) (now : Instant) :
    Change Outcome := do
  apply fun w => (w.count (sentEvent c messageId now) (some c.key) now).report c
    (.mailSent messageId) node.id now
  advance g c node .next "sent" now

/-- Goes on after an outage: tries again later, as often as the policy allows. -/
def mailFailed (retry : RetryPolicy) (c : Cursor) (node : Node) (reason : String) (now : Instant) :
    Change Outcome := do
  let attempt := c.retries + 1
  if attempt > retry.limit then
    fail c.key ("send retries exhausted after " ++ natText attempt.toNat ++ " attempts: " ++ reason)
      now
  else
    let retryAt ← after now (retry.backoff attempt)
    discard <| move c.key node .waitingDelay "send_retry" now
      fun c => { c with retries := attempt, nextRun := some retryAt }
    apply (·.report c (.mailFailed attempt retryAt reason) node.id now)
    return .parked

/-- Goes on after an attempt to send the mail of a step. -/
def settleMail (retry : RetryPolicy) (g : Graph) (c : Cursor) (node : Node) (now : Instant) :
    Except SendFault String → Change Outcome
  | .ok messageId => mailSent g c node messageId now
  | .error (.transient reason) => mailFailed retry c node reason now
  | .error (.permanent reason) => fail c.key reason now

end Change

end MailCampaign
