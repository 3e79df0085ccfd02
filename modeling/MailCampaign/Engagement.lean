import MailCampaign.Instant.Basic
import MailCampaign.Uuid

/-!
# Engagement events

What a lead was seen to do with the mail of a campaign. Providers deliver an event at least once, so
each carries a key by which it is recognised.
-/

namespace MailCampaign

/-- A kind of engagement. -/
inductive EngagementKind where
  | sent
  | opened
  | clicked
  | replied
  | bounced
  | unsubscribed
deriving DecidableEq, Repr

def EngagementKind.name : EngagementKind → String
  | .sent => "sent"
  | .opened => "opened"
  | .clicked => "clicked"
  | .replied => "replied"
  | .bounced => "bounced"
  | .unsubscribed => "unsubscribed"

/-- Whether a bounce is final. -/
inductive BounceKind where
  | hard
  | soft
deriving DecidableEq, Repr

/-- What a provider tells about an event. -/
structure EventContext where
  ip : Option String := none
  userAgent : Option String := none
  url : Option String := none
  bounceKind : Option BounceKind := none
deriving DecidableEq

/-- An engagement of one lead within one campaign. -/
structure Engagement where
  leadId : String
  campaignId : Uuid
  kind : EngagementKind
  /-- When it happened, as reported. -/
  time : Instant
  /-- Recognises a repeated delivery. -/
  key : String
  context : EventContext
deriving DecidableEq

/-- An unsubscribe or a final bounce, which stops every running flow of the lead. A bounce is final
unless it is reported as soft. -/
def Engagement.haltsLead (e : Engagement) : Bool :=
  match e.kind with
  | .unsubscribed => true
  | .bounced => e.context.bounceKind != some .soft
  | _ => false

end MailCampaign
