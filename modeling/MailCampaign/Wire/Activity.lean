import MailCampaign.Activity
import MailCampaign.Mail.Template
import MailCampaign.Wire.Cursor

/-!
# JSON forms of activities and templates
-/

namespace MailCampaign

open Json (Decoder)

/-- What is told about a milestone besides its name. -/
def Milestone.detail : Milestone → Json
  | .mailSent messageId => .obj [("message_id", .str messageId)]
  | .mailFailed attempt retryAt reason =>
    .obj [("attempt", .nat attempt.toNat), ("retry_at", retryAt.json), ("reason", .str reason)]
  | .delayScheduled fireAt => .obj [("fire_at", fireAt.json)]
  | .conditionResolved branch cause =>
    .obj [("branch", branch.json), ("via", .str cause.name)]
  | .failed reason => .obj [("reason", .str reason)]
  | .canceled reason => .obj [("reason", .str reason)]
  | .enrolled | .goalReached | .completed => .null

def Activity.json (a : Activity) : Json :=
  .obj [("activity", .str a.milestone.name), ("campaign_id", a.campaignId.json),
    ("flow_id", a.flowId.json), ("lead_id", .str a.leadId), ("node_id", .str a.nodeId),
    ("detail", a.milestone.detail), ("timestamp", a.time.json)]

def Template.json (t : Template) : Json := .obj [("subject", .str t.subject), ("body", .str t.body)]

def Template.decoder : Decoder Template :=
  .record ["subject", "body"] fun s =>
    Template.mk <$> s.required "subject" .string <*> s.required "body" .string

/-- Reads a table of templates. -/
def templatesDecoder : Decoder (Table String Template) := .table Template.decoder

end MailCampaign
