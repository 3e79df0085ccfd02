import MailCampaign.Lead
import MailCampaign.Mail.Template
import MailCampaign.Uuid

/-!
# Deliveries

What comes of handing a mail over: an id or a failure. While a mailer is at work the outside may
pause or cancel a campaign or unsubscribe a lead; its answer tells of these interruptions too.
-/

namespace MailCampaign

/-- Why a mail was not sent. -/
inductive SendFault where
  /-- An outage that will pass. -/
  | transient (reason : String)
  /-- A failure for good. -/
  | permanent (reason : String)
deriving DecidableEq

def SendFault.message : SendFault → String
  | .transient reason => "transient delivery failure: " ++ reason
  | .permanent reason => "permanent delivery failure: " ++ reason

/-- What happens to a campaign or a lead while a mail is being sent. -/
inductive Interruption where
  | pause (campaign : Uuid)
  | cancel (campaign : Uuid)
  /-- The lead of the mail unsubscribes, in an event with a key. -/
  | unsubscribe (campaign : Uuid) (key : String)
  /-- Another lead unsubscribes. -/
  | unsubscribeOther (leadId : String) (campaign : Uuid) (key : String)
deriving DecidableEq

/-- What a mailer answers. -/
structure Delivery where
  /-- The id of the message, or why there is none. -/
  result : Except SendFault String
  /-- What happened meanwhile, in order. -/
  interruptions : List Interruption := []

/-- A mail handed to the mailer, and the result. -/
structure Submission where
  lead : Lead
  mail : Template
  result : Except SendFault String

/-- Renders stored templates for the fields of a lead, the same way every time. -/
abbrev Renderer := String → Table String String → Except SendFault Template

/-- Renders the templates of a table. -/
def Renderer.ofTable (templates : Table String Template) : Renderer := fun name fields =>
  match templates.find? name with
  | some t => .ok (t.render fields)
  | none => .error (.permanent ("unknown template " ++ name))

end MailCampaign
