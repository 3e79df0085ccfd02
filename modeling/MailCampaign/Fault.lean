import MailCampaign.Cursor.Basic
import MailCampaign.Flow.Violation

/-!
# Faults

Why an operation was refused or could not be finished, and the text that says so.
-/

namespace MailCampaign

/-- Something that was asked for and is not there. -/
inductive Missing where
  | cursor (key : CursorKey)
  | campaign (id : Uuid)
  | activeFlow (campaign : Uuid)
  | flowVersion (id : Uuid)
  | enrollment (lead : String) (campaign : Uuid)
deriving DecidableEq

def Missing.text : Missing → String
  | .cursor key => "cursor " ++ key.text
  | .campaign id => "campaign " ++ id.text
  | .activeFlow id => "campaign " ++ id.text ++ " has no active flow"
  | .flowVersion id => "flow version " ++ id.text
  | .enrollment lead id =>
    "lead " ++ lead ++ " is not enrolled in campaign " ++ id.text

/-- A state of things that rules an operation out. -/
inductive Clash where
  /-- The lead already has a cursor in the version. -/
  | enrolled (key : CursorKey)
  /-- The cursor may not change its state so. -/
  | transition (a b : CursorState)
  /-- The cursor is no longer at the step. -/
  | moved (key : CursorKey) (nodeId : String)
  /-- The campaign is canceled for good. -/
  | canceled (campaign : Uuid)
deriving DecidableEq

def Clash.text : Clash → String
  | .enrolled key => "lead " ++ key.leadId ++ " is already enrolled in flow " ++ key.flowId.text
  | .transition a b => "invalid cursor transition from " ++ a.title ++ " to " ++ b.title
  | .moved key nodeId => "cursor " ++ key.text ++ " left node " ++ nodeId
  | .canceled campaign => "campaign " ++ campaign.text ++ " is canceled"

/-- What a halted campaign does not do. -/
inductive Halt where
  /-- Take a new version, as it is canceled. -/
  | activation (campaign : Uuid)
  /-- Take new leads. -/
  | enrollment (campaign : Uuid)
deriving DecidableEq

def Halt.text : Halt → String
  | .activation campaign => "campaign " ++ campaign.text ++ " is canceled"
  | .enrollment campaign => "campaign " ++ campaign.text ++ " is not accepting enrollments"

/-- Why an operation gave no result. -/
inductive Fault where
  | invalidFlow (v : Violation)
  | missing (m : Missing)
  | clash (c : Clash)
  | halted (h : Halt)
  /-- A stored text could not be read. -/
  | unreadable
  /-- A file could not be read or written. -/
  | storage
  /-- An instant or a span left its range. -/
  | outOfRange
deriving DecidableEq

/-- The text of a fault, for those that have one. -/
def Fault.message : Fault → String
  | .invalidFlow v => "Flow validation error: " ++ v.message
  | .missing m => "Not found: " ++ m.text
  | .clash c => "Conflict: " ++ c.text
  | .halted h => "Campaign " ++ h.text ++ " is paused or canceled"
  | .unreadable => "Serialization error"
  | .storage => "IO error"
  | .outOfRange => "time out of range"

end MailCampaign
