import MailCampaign.Cursor.Basic

/-!
# Activities

The milestones of cursors, as they are told to the outside.
-/

namespace MailCampaign

/-- What made a cursor leave a condition. -/
inductive Cause where
  /-- It came to a step. -/
  | enter
  /-- Its timer ran out. -/
  | timer
  /-- Its lead was seen to do something. -/
  | event
deriving DecidableEq, Repr

def Cause.name : Cause → String
  | .enter => "enter"
  | .timer => "timer"
  | .event => "event"

/-- A milestone of a cursor. -/
inductive Milestone where
  | enrolled
  | mailSent (messageId : String)
  | mailFailed (attempt : UInt32) (retryAt : Instant) (reason : String)
  | delayScheduled (fireAt : Instant)
  | conditionResolved (branch : Branch) (cause : Cause)
  | goalReached
  | completed
  | failed (reason : String)
  | canceled (reason : String)
deriving DecidableEq

def Milestone.name : Milestone → String
  | .enrolled => "lead_enrolled"
  | .mailSent _ => "email_sent"
  | .mailFailed _ _ _ => "email_send_failed"
  | .delayScheduled _ => "delay_scheduled"
  | .conditionResolved _ _ => "condition_resolved"
  | .goalReached => "goal_reached"
  | .completed => "flow_completed"
  | .failed _ => "cursor_failed"
  | .canceled _ => "cursor_canceled"

/-- A milestone of a cursor, where and when. -/
structure Activity where
  milestone : Milestone
  campaignId : Uuid
  flowId : Uuid
  leadId : String
  nodeId : String
  time : Instant
deriving DecidableEq

/-- The activity of a cursor at a step. -/
def Cursor.activity (c : Cursor) (milestone : Milestone) (nodeId : String) (now : Instant) :
    Activity :=
  ⟨milestone, c.campaignId, c.flowId, c.leadId, nodeId, now⟩

end MailCampaign
