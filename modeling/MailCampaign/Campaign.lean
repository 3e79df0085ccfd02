import MailCampaign.Table
import MailCampaign.Uuid

/-!
# Campaigns

The status of a campaign and its totals.
-/

namespace MailCampaign

/-- Whether a campaign runs. -/
inductive CampaignStatus where
  | active
  | paused
  | canceled
deriving DecidableEq, Repr

def CampaignStatus.name : CampaignStatus → String
  | .active => "active"
  | .paused => "paused"
  | .canceled => "canceled"

/-- A status in which nothing is dispatched. -/
def CampaignStatus.halts : CampaignStatus → Bool
  | .active => false
  | _ => true

/-- The totals of a campaign. -/
structure Totals where
  sent : UInt64 := 0
  opens : UInt64 := 0
  uniqueOpens : UInt64 := 0
  clicks : UInt64 := 0
  uniqueClicks : UInt64 := 0
  replies : UInt64 := 0
  bounces : UInt64 := 0
  unsubscribes : UInt64 := 0
  enrolled : UInt64 := 0
  goalReached : UInt64 := 0
  completed : UInt64 := 0
  failed : UInt64 := 0
  canceled : UInt64 := 0
deriving DecidableEq

/-- The state of a campaign as reported. -/
structure CampaignSummary where
  campaignId : Uuid
  status : CampaignStatus
  activeFlow : Option Uuid
  activeVersion : Option UInt32
  totals : Totals
  /-- The number of cursors in each state that occurs. -/
  cursorStates : Table String UInt64

end MailCampaign
