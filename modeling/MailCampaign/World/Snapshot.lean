import MailCampaign.World.Basic

/-!
# Snapshots and the journal

A snapshot holds all that is needed to go on later, apart from keys that were not settled. It can be
loaded into any world; entries of a journal bring a world up to date from there. Flows that break a
rule are passed over, and so are cursors whose flow is not known.
-/

namespace MailCampaign

/-- What is saved of a world. -/
structure Snapshot where
  takenAt : Option Instant
  flows : List Definition
  cursors : List Cursor
  leads : List Lead
  campaigns : List (Uuid × CampaignStatus)
  statistics : StatisticsImage
  seen : List (String × Instant)

namespace World

/-- The snapshot of a world. -/
def snapshot (w : World) (now : Instant) : Snapshot where
  takenAt := some now
  flows := w.flows.definitions
  cursors := w.cursors.all
  leads := w.leads.values
  campaigns := w.campaigns.toList
  statistics := w.statistics.image
  seen := w.seen.settled

/-- Whether the flow of a cursor is known. -/
def knowsFlow (flows : FlowStore) (c : Cursor) : Bool := (flows.find? c.flowId).isSome

/-- The cursors of a snapshot that are loaded once its flows are. -/
def loadable (flows : FlowStore) (s : Snapshot) : List Cursor := s.cursors.filter (knowsFlow flows)

/-- Loads a snapshot; the second part is the number of cursors loaded. -/
def restore (w : World) (s : Snapshot) : World × Nat :=
  let flows := s.flows.foldl FlowStore.accept w.flows
  let cursors := loadable flows s
  ({ w with
      flows
      cursors := w.cursors.restore cursors
      leads := w.leads.insertAll (s.leads.map fun l => (l.id, l))
      campaigns := w.campaigns.insertAll s.campaigns
      statistics := w.statistics.restore s.statistics
      seen := w.seen.restore s.seen },
    cursors.length)

/-- Takes in an entry of a journal. -/
def replay (w : World) : Entry → World
  | .flow d => { w with flows := w.flows.accept d }
  | .campaign id status => { w with campaigns := w.campaigns.insert id status }
  | .lead l => { w with leads := w.leads.insert l.id l }
  | .cursor c => if knowsFlow w.flows c then { w with cursors := w.cursors.put c } else w
  | .stats campaign totals applied unique =>
    { w with statistics := w.statistics.replay campaign totals applied unique }
  | .seenKey key time => { w with seen := w.seen.restore [(key, time)] }

/-- Takes in the entries of a journal in their order. -/
def replayAll (w : World) (entries : List Entry) : World := entries.foldl replay w

end World

end MailCampaign
