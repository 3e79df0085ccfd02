import MailCampaign.Flow.Basic

/-!
# Cursors

A cursor is the position of one lead in one version of a flow, with what it waits for and what has
happened to it so far.
-/

namespace MailCampaign

/-- What a cursor is doing. -/
inductive CursorState where
  | pending
  | active
  | waitingDelay
  | waitingCondition
  | completed
  | goalReached
  | failed
  | canceled
deriving DecidableEq, Repr

def CursorState.all : List CursorState :=
  [.pending, .active, .waitingDelay, .waitingCondition, .completed, .goalReached, .failed, .canceled]

def CursorState.name : CursorState → String
  | .pending => "pending"
  | .active => "active"
  | .waitingDelay => "waiting_delay"
  | .waitingCondition => "waiting_condition"
  | .completed => "completed"
  | .goalReached => "goal_reached"
  | .failed => "failed"
  | .canceled => "canceled"

def CursorState.title : CursorState → String
  | .pending => "Pending"
  | .active => "Active"
  | .waitingDelay => "WaitingDelay"
  | .waitingCondition => "WaitingCondition"
  | .completed => "Completed"
  | .goalReached => "GoalReached"
  | .failed => "Failed"
  | .canceled => "Canceled"

/-- A state that is never left. -/
def CursorState.terminal : CursorState → Bool
  | .completed | .goalReached | .failed | .canceled => true
  | _ => false

/-- A state in which a cursor has just come to its step. -/
def CursorState.entering : CursorState → Bool
  | .pending | .active => true
  | _ => false

/-- A lead within a version of a flow. -/
structure CursorKey where
  flowId : Uuid
  leadId : String
deriving DecidableEq

def CursorKey.text (k : CursorKey) : String := k.flowId.text ++ "/" ++ k.leadId

/-- What a cursor has counted. -/
structure Counters where
  emailsSent : UInt32 := 0
  opens : UInt32 := 0
  clicks : UInt32 := 0
  replies : UInt32 := 0
deriving DecidableEq

/-- One more of a kind of engagement. -/
def Counters.count (c : Counters) : EngagementKind → Counters
  | .sent => { c with emailsSent := c.emailsSent + 1 }
  | .opened => { c with opens := c.opens + 1 }
  | .clicked => { c with clicks := c.clicks + 1 }
  | .replied => { c with replies := c.replies + 1 }
  | _ => c

/-- A signal seen while a condition was waiting. -/
structure Observation where
  signal : EngagementKind
  time : Instant
deriving DecidableEq

/-- The window of the condition that a cursor waits on. -/
structure Window where
  nodeId : String
  opens : Instant
  deadline : Instant
  observed : List Observation
deriving DecidableEq

/-- One thing that happened to a cursor. -/
structure Step where
  nodeId : String
  /-- The kind of the step, or `cursor` for what happened to the cursor as a whole. -/
  kind : String
  outcome : String
  time : Instant
deriving DecidableEq

/-- The position of a lead in a version of a flow. -/
structure Cursor where
  id : Uuid
  flowId : Uuid
  campaignId : Uuid
  leadId : String
  nodeId : String
  state : CursorState
  /-- When its timer is due. -/
  nextRun : Option Instant
  counters : Counters
  /-- Failed attempts to send the mail of the current step. -/
  retries : UInt32
  window : Option Window
  enrolledAt : Instant
  updatedAt : Instant
  goalReachedAt : Option Instant
  failure : Option String
  history : List Step
deriving DecidableEq

/-- The lead and the version of a cursor. -/
def Cursor.key (c : Cursor) : CursorKey := ⟨c.flowId, c.leadId⟩

/-- Whether the timer of a cursor is due. -/
def Cursor.dueAt (c : Cursor) (now : Instant) : Bool :=
  match c.nextRun with
  | some t => t ≤ now
  | none => false

end MailCampaign
