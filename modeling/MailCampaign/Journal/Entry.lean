import MailCampaign.Campaign
import MailCampaign.Cursor.Basic
import MailCampaign.Lead

/-!
# Journal entries

The changes that are written down as they happen. An entry holds values as a whole, so that reading
the entries again in their order, the last one wins.
-/

namespace MailCampaign

/-- A change that is written down. -/
inductive Entry where
  /-- A version of a flow. -/
  | flow (definition : Definition)
  /-- The status of a campaign. -/
  | campaign (id : Uuid) (status : CampaignStatus)
  /-- The profile of a lead. -/
  | lead (lead : Lead)
  /-- A cursor. -/
  | cursor (cursor : Cursor)
  /-- The totals of a campaign, with the key of the event that was counted and, if the event was
  the first of its kind, the lead and the kind. -/
  | stats (campaign : Uuid) (totals : Totals) (applied : Option (String × Instant))
      (unique : Option (String × EngagementKind))
  /-- The key of an event that went to all its cursors. -/
  | seenKey (key : String) (time : Instant)

end MailCampaign
