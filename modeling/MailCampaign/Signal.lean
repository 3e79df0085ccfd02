import MailCampaign.Engagement
import MailCampaign.Text.Blank
import MailCampaign.Text.Numeral

/-!
# Tracking signals

A signal is what a tracking link or a provider reports. It becomes an engagement event with a key:
the provider's own key when there is one, else one made from the message id, else one made from the
campaign, the lead and the millisecond. A blank key or message id counts as missing.
-/

namespace MailCampaign

/-- A kind of tracking signal. -/
inductive SignalKind where
  | pixelHit
  | clickRedirect (url : String)
  | replyDetected
  | bounce (kind : BounceKind)
  | unsubscribe
deriving DecidableEq

/-- The kind of engagement that a signal reports. -/
def SignalKind.engagement : SignalKind → EngagementKind
  | .pixelHit => .opened
  | .clickRedirect _ => .clicked
  | .replyDetected => .replied
  | .bounce _ => .bounced
  | .unsubscribe => .unsubscribed

/-- A signal as it comes in. -/
structure Signal where
  kind : SignalKind
  campaignId : Uuid
  leadId : String
  /-- The provider's id of the mail in question. -/
  messageId : Option String := none
  /-- The provider's own key for the event. -/
  providerKey : Option String := none
  /-- When it happened, as reported. -/
  time : Option Instant := none
  ip : Option String := none
  userAgent : Option String := none

namespace Signal

/-- A text that is present and not blank. -/
def present (s : Option String) : Option String := s.filter fun t => !blankText t

/-- When the event counts as having happened. -/
def timeOr (s : Signal) (received : Instant) : Instant := s.time.getD received

/-- The key of the event. -/
def key (s : Signal) (received : Instant) : String :=
  let kind := s.kind.engagement.name
  match present s.providerKey, present s.messageId with
  | some key, _ => key
  | none, some id => id ++ ":" ++ kind
  | none, none =>
    s.campaignId.text ++ ":" ++ s.leadId ++ ":" ++ kind ++ ":" ++
      intText (s.timeOr received).millis

/-- What the signal tells about the event. -/
def context (s : Signal) : EventContext where
  ip := s.ip
  userAgent := s.userAgent
  url := match s.kind with
    | .clickRedirect url => some url
    | _ => none
  bounceKind := match s.kind with
    | .bounce kind => some kind
    | _ => none

/-- The event of a signal received at an instant. -/
def toEngagement (s : Signal) (received : Instant) : Engagement where
  leadId := s.leadId
  campaignId := s.campaignId
  kind := s.kind.engagement
  time := s.timeOr received
  key := s.key received
  context := s.context

end Signal

end MailCampaign
