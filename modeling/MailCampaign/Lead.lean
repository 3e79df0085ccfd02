import MailCampaign.Table

/-!
# Leads
-/

namespace MailCampaign

/-- A recipient that can be enrolled into a campaign. -/
structure Lead where
  id : String
  email : String
  /-- Merge fields for templates, such as a first name. -/
  fields : Table String String

end MailCampaign
