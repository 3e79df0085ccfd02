import MailCampaign.Flow.Basic
import MailCampaign.Wire.Basic

/-!
# JSON forms of flows

What a step does stands next to its id, under the tag `type`.
-/

namespace MailCampaign

open Json (Decoder)

def TimeUnit.name : TimeUnit → String
  | .hours => "hours"
  | .days => "days"

def TimeUnit.decoder : Decoder TimeUnit := .oneOf [("hours", .hours), ("days", .days)]

def Wait.fields (w : Wait) : List (String × Json) :=
  [("amount", .nat w.amount.toNat), ("unit", .str w.unit.name)]

def Wait.decoder : Decoder Wait :=
  .record ["amount", "unit"] fun s =>
    Wait.mk <$> s.required "amount" .uint32 <*> s.required "unit" TimeUnit.decoder

def Mail.fields (m : Mail) : List (String × Json) :=
  [("template_ref", .ofOption .str m.template), ("subject", .str m.subject), ("body", .str m.body)]

def Mail.decoder : Decoder Mail :=
  .record ["template_ref", "subject", "body"] fun s =>
    Mail.mk <$> s.maybe "template_ref" .string <*> s.withDefault "subject" .string ""
      <*> s.withDefault "body" .string ""

def Watch.json (w : Watch) : Json :=
  .obj [("opened", .bool w.opened), ("clicked", .bool w.clicked), ("replied", .bool w.replied)]

def Watch.decoder : Decoder Watch :=
  .record ["opened", "clicked", "replied"] fun s =>
    Watch.mk <$> s.withDefault "opened" .bool false <*> s.withDefault "clicked" .bool false
      <*> s.withDefault "replied" .bool false

def MatchMode.name : MatchMode → String
  | .anyOf => "any"
  | .noneOf => "none"

def MatchMode.decoder : Decoder MatchMode := .oneOf [("any", .anyOf), ("none", .noneOf)]

def Condition.fields (c : Condition) : List (String × Json) :=
  [("watch", c.watch.json), ("match_mode", .str c.mode.name), ("wait", .obj c.wait.fields)]

def Condition.decoder : Decoder Condition :=
  .record ["watch", "match_mode", "wait"] fun s =>
    Condition.mk <$> s.withDefault "watch" Watch.decoder {}
      <*> s.withDefault "match_mode" MatchMode.decoder .anyOf <*> s.required "wait" Wait.decoder

def GoalKind.name : GoalKind → String
  | .conversion => "conversion"
  | .reply => "reply"
  | .custom => "custom"

def GoalKind.decoder : Decoder GoalKind :=
  .oneOf [("conversion", .conversion), ("reply", .reply), ("custom", .custom)]

def Goal.fields (g : Goal) : List (String × Json) :=
  [("kind", .str g.kind.name), ("label", .ofOption .str g.label)]

def Goal.decoder : Decoder Goal :=
  .record ["kind", "label"] fun s =>
    Goal.mk <$> s.withDefault "kind" GoalKind.decoder .conversion <*> s.maybe "label" .string

/-! ## Steps -/

def Action.fields : Action → List (String × Json)
  | .email m => m.fields
  | .condition c => c.fields
  | .delay w => w.fields
  | .goal g => g.fields

def Node.json (n : Node) : Json :=
  .obj (("id", .str n.id) :: ("type", .str n.action.name) :: n.action.fields)

/-- The decoders of what a step does, by name. -/
def Action.decoders : List (String × Decoder Action) :=
  [("email", fun p j => .email <$> Mail.decoder p j),
    ("condition", fun p j => .condition <$> Condition.decoder p j),
    ("delay", fun p j => .delay <$> Wait.decoder p j),
    ("goal", fun p j => .goal <$> Goal.decoder p j)]

/-- Reads what a step does from the fields next to its id. -/
def Action.ofFields (fields : List (Option String × Source)) : Reading Action := do
  let (tag, rest) ← Decoder.tagged "type" fields
  let d ← Decoder.nameOrIndex Action.decoders .buffer tag
  d .buffer (.obj rest)

def Node.decoder : Decoder Node :=
  .recordWithRest ["id"] fun s others =>
    Node.mk <$> s.required "id" .string <*> s.atEnd (Action.ofFields others)

/-! ## Edges -/

def Edge.json (e : Edge) : Json :=
  .obj [("id", .str e.id), ("source", .str e.source),
    ("source_handle", .ofOption .str e.sourceHandle), ("target", .str e.target),
    ("target_handle", .ofOption .str e.targetHandle),
    ("condition_label", .ofOption .str e.conditionLabel)]

def Edge.decoder : Decoder Edge :=
  .record ["id", "source", "source_handle", "target", "target_handle", "condition_label"] fun s =>
    Edge.mk <$> s.required "id" .string <*> s.required "source" .string
      <*> s.maybe "source_handle" .string <*> s.required "target" .string
      <*> s.maybe "target_handle" .string <*> s.maybe "condition_label" .string

def Branch.json (b : Branch) : Json := .str b.name

def Branch.decoder : Decoder Branch := .oneOf [("yes", .yes), ("no", .no), ("next", .next)]

/-! ## Documents and definitions -/

def Document.json (d : Document) : Json :=
  .obj [("nodes", .list Node.json d.nodes), ("edges", .list Edge.json d.edges)]

def Document.decoder : Decoder Document :=
  .record ["nodes", "edges"] fun s =>
    Document.mk <$> s.required "nodes" (.list Node.decoder)
      <*> s.withDefault "edges" (.list Edge.decoder) []

def Definition.json (d : Definition) : Json :=
  .obj [("id", d.id.json), ("campaign_id", d.campaignId.json), ("version", .nat d.version.toNat),
    ("nodes", .list Node.json d.document.nodes), ("edges", .list Edge.json d.document.edges),
    ("activated_at", d.activatedAt.json)]

def Definition.decoder : Decoder Definition :=
  .record ["id", "campaign_id", "version", "nodes", "edges", "activated_at"] fun s =>
    (fun id campaign version nodes edges time =>
        (⟨id, campaign, version, ⟨nodes, edges⟩, time⟩ : Definition))
      <$> s.required "id" Uuid.decoder <*> s.required "campaign_id" Uuid.decoder
      <*> s.required "version" .uint32 <*> s.required "nodes" (.list Node.decoder)
      <*> s.required "edges" (.list Edge.decoder) <*> s.required "activated_at" Instant.decoder

end MailCampaign
