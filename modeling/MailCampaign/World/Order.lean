import MailCampaign.World.Snapshot

/-!
# The order of snapshots

Snapshots are written in a fixed order: everything by its ids and names, and keys by their text.
-/

namespace MailCampaign

/-- Whether a pair comes no later than another, the first parts deciding before the second. -/
def pairBefore {α β : Type} [DecidableEq α] (first : α → α → Bool) (second : β → β → Bool)
    (a b : α × β) : Bool :=
  if a.1 = b.1 then second a.2 b.2 else first a.1 b.1

/-- The order of identifiers. -/
def uuidBefore (a b : Uuid) : Bool := a ≤ b

/-- The order of texts. -/
def textBefore (a b : String) : Bool := a ≤ b

/-- The order of instants. -/
def instantBefore (a b : Instant) : Bool := a ≤ b

/-- The order of numbers of versions. -/
def versionBefore (a b : UInt32) : Bool := a ≤ b

/-- A list in the order of what a function makes of its items. -/
def sortBy {α β : Type} (f : α → β) (before : β → β → Bool) (l : List α) : List α :=
  l.mergeSort fun a b => before (f a) (f b)

/-- Cursors by lead and flow. -/
def sortCursors : List Cursor → List Cursor :=
  sortBy (fun c => (c.leadId, c.flowId)) (pairBefore textBefore uuidBefore)

/-- Definitions by campaign, version and id. -/
def sortDefinitions : List Definition → List Definition :=
  sortBy (fun d => (d.campaignId, d.version, d.id))
    (pairBefore uuidBefore (pairBefore versionBefore uuidBefore))

/-- Keys by text and time. -/
def sortKeys : List (String × Instant) → List (String × Instant) :=
  sortBy id (pairBefore textBefore instantBefore)

def StatisticsImage.sorted (i : StatisticsImage) : StatisticsImage where
  campaigns := sortBy Prod.fst uuidBefore i.campaigns
  applied := sortKeys i.applied
  firsts := sortBy (fun f => (f.campaign, f.leadId, f.kind.name))
    (pairBefore uuidBefore (pairBefore textBefore textBefore)) i.firsts

def Snapshot.sorted (s : Snapshot) : Snapshot where
  takenAt := s.takenAt
  flows := sortDefinitions s.flows
  cursors := sortCursors s.cursors
  leads := sortBy Lead.id textBefore s.leads
  campaigns := sortBy Prod.fst uuidBefore s.campaigns
  statistics := s.statistics.sorted
  seen := sortKeys s.seen

end MailCampaign
