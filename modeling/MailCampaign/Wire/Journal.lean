import MailCampaign.Journal.Entry
import MailCampaign.Wire.Cursor
import MailCampaign.World.Snapshot

/-!
# JSON forms of journal entries and snapshots

An entry is one object with its kind under the tag `kind`. It may also be read from an array whose
first item is the kind.
-/

namespace MailCampaign

open Json (Decoder)

/-! ## Entries -/

/-- The JSON form of a counted first occurrence. -/
def uniqueJson (u : String × EngagementKind) : Json := .arr [.str u.1, u.2.json]

def Entry.json : Entry → Json
  | .flow d => .obj [("kind", .str "flow"), ("definition", d.json)]
  | .campaign id status =>
    .obj [("kind", .str "campaign"), ("campaign_id", id.json), ("status", status.json)]
  | .lead l => .obj [("kind", .str "lead"), ("lead", l.json)]
  | .cursor c => .obj [("kind", .str "cursor"), ("cursor", c.json)]
  | .stats id totals applied unique =>
    .obj [("kind", .str "stats"), ("campaign_id", id.json), ("stats", totals.json),
      ("applied_key", .ofOption datedKeyJson applied), ("unique", .ofOption uniqueJson unique)]
  | .seenKey key time =>
    .obj [("kind", .str "seen_key"), ("key", .str key), ("at", time.json)]

def Entry.decoders : List (String × Decoder Entry) :=
  [("flow", .record ["definition"] fun s =>
      .flow <$> s.required "definition" Definition.decoder),
    ("campaign", .record ["campaign_id", "status"] fun s =>
      .campaign <$> s.required "campaign_id" Uuid.decoder
        <*> s.required "status" CampaignStatus.decoder),
    ("lead", .record ["lead"] fun s => .lead <$> s.required "lead" Lead.decoder),
    ("cursor", .record ["cursor"] fun s => .cursor <$> s.required "cursor" Cursor.decoder),
    ("stats", .record ["campaign_id", "stats", "applied_key", "unique"] fun s =>
      .stats <$> s.required "campaign_id" Uuid.decoder <*> s.required "stats" Totals.decoder
        <*> s.maybe "applied_key" datedKeyDecoder
        <*> s.maybe "unique" (.pair .string EngagementKind.decoder)),
    ("seen_key", .record ["key", "at"] fun s =>
      .seenKey <$> s.required "key" .string <*> s.required "at" Instant.decoder)]

/-- Reads an entry whose kind and other content are apart. -/
def Entry.ofTagged (tag content : Source) : Reading Entry := do
  let d ← Reading.ofOption .mistyped (Entry.decoders.lookup (← Decoder.string .buffer tag))
  d .buffer content

def Entry.decoder : Decoder Entry
  | p, .obj fields =>
    if keepable p (.obj fields) then do
      let (tag, rest) ← Decoder.tagged "kind" fields
      Entry.ofTagged tag (.obj rest)
    else .fault .malformed
  | p, .arr items =>
    if keepable p (.arr items) then
      match items with
      | tag :: rest => Entry.ofTagged tag (.arr rest)
      | [] => .fault .mistyped
    else .fault .malformed
  | _, j => .fault (Decoder.unexpected j)
where
  /-- Whether an entry can be kept until its kind is known. -/
  keepable : Json.Place → Source → Bool
    | .text room, j => j.keepable room
    | _, _ => true

/-! ## Snapshots -/

def FirstOfKind.json (f : FirstOfKind) : Json :=
  .arr [f.campaign.json, .str f.leadId, f.kind.json]

def FirstOfKind.decoder : Decoder FirstOfKind
  | p, .arr items => Decoder.enter p fun q =>
    match items with
    | [a, b, c] =>
      FirstOfKind.mk <$> Uuid.decoder q a <*> Decoder.string q b <*> EngagementKind.decoder q c
    | _ => .fault .mistyped
  | _, j => .fault (Decoder.unexpected j)

def StatisticsImage.json (i : StatisticsImage) : Json :=
  .obj [("campaigns", .list (fun e => .arr [e.1.json, e.2.json]) i.campaigns),
    ("applied_keys", .list datedKeyJson i.applied), ("unique", .list FirstOfKind.json i.firsts)]

def StatisticsImage.decoder : Decoder StatisticsImage :=
  .record ["campaigns", "applied_keys", "unique"] fun s =>
    StatisticsImage.mk <$> s.required "campaigns" (.list (.pair Uuid.decoder Totals.decoder))
      <*> s.required "applied_keys" (.list datedKeyDecoder)
      <*> s.required "unique" (.list FirstOfKind.decoder)

def Snapshot.json (s : Snapshot) : Json :=
  .obj [("taken_at", .ofOption Instant.json s.takenAt), ("flows", .list Definition.json s.flows),
    ("cursors", .list Cursor.json s.cursors), ("leads", .list Lead.json s.leads),
    ("campaigns", .list (fun e => .arr [e.1.json, e.2.json]) s.campaigns),
    ("stats", s.statistics.json), ("seen_keys", .list datedKeyJson s.seen)]

def Snapshot.decoder : Decoder Snapshot :=
  .record ["taken_at", "flows", "cursors", "leads", "campaigns", "stats", "seen_keys"] fun s =>
    Snapshot.mk <$> s.nullable "taken_at" Instant.decoder
      <*> s.required "flows" (.list Definition.decoder)
      <*> s.required "cursors" (.list Cursor.decoder)
      <*> s.required "leads" (.list Lead.decoder)
      <*> s.required "campaigns" (.list (.pair Uuid.decoder CampaignStatus.decoder))
      <*> s.required "stats" StatisticsImage.decoder
      <*> s.required "seen_keys" (.list datedKeyDecoder)

end MailCampaign
