import MailCampaign.Flow.Graph
import MailCampaign.Table

/-!
# The store of flow versions

The versions of flows by id, and for each campaign the ids of its versions from the oldest to the
newest. The newest one is active. A version once stored is not changed by an activation.
-/

namespace MailCampaign

/-- Flow versions and their order in each campaign. -/
structure FlowStore where
  graphs : Table Uuid Graph
  byCampaign : Table Uuid (List Uuid)
  keyed : graphs.Keyed Graph.id

namespace FlowStore

/-- The store without versions. -/
def empty : FlowStore := ⟨Table.empty, Table.empty, Table.keyed_empty _⟩

/-- The version of an id. -/
def find? (s : FlowStore) (id : Uuid) : Option Graph := s.graphs.find? id

/-- The ids of the versions of a campaign, the oldest first. -/
def history (s : FlowStore) (campaign : Uuid) : List Uuid := (s.byCampaign.find? campaign).getD []

/-- The active version of a campaign. -/
def active? (s : FlowStore) (campaign : Uuid) : Option Graph :=
  (s.history campaign).getLast?.bind s.find?

/-- The versions of a campaign, the oldest first. -/
def versions (s : FlowStore) (campaign : Uuid) : List Graph :=
  (s.history campaign).filterMap s.find?

/-- The definitions of all versions. -/
def definitions (s : FlowStore) : List Definition := s.graphs.values.map Graph.definition

/-- The number of a version, or zero without one. -/
def versionOf (s : FlowStore) (id : Option Uuid) : UInt32 :=
  match id.bind s.find? with
  | some g => g.version
  | none => 0

/-- The number of the next version of a campaign. -/
def nextVersion (s : FlowStore) (campaign : Uuid) : UInt32 :=
  s.versionOf (s.history campaign).getLast? + 1

/-- Stores a version under its id. -/
def store (s : FlowStore) (g : Graph) : FlowStore :=
  { s with graphs := s.graphs.insert g.id g, keyed := s.keyed.insert g }

@[simp] theorem find?_empty (id : Uuid) : empty.find? id = none := rfl

theorem id_eq_of_find? {s : FlowStore} {id : Uuid} {g : Graph} (h : s.find? id = some g) :
    g.id = id := s.keyed id g h

theorem find?_store (s : FlowStore) (g : Graph) (id : Uuid) :
    (s.store g).find? id = if id = g.id then some g else s.find? id :=
  s.graphs.find?_insert g.id id g

/-- Makes a document the next version of a campaign, under a given id. -/
def activate (s : FlowStore) (id campaign : Uuid) (document : Document) (now : Instant) :
    Except Violation (FlowStore × Graph) := do
  let g ← Graph.compile ⟨id, campaign, s.nextVersion campaign, document, now⟩
  let byCampaign := s.byCampaign.insert campaign (s.history campaign ++ [g.id])
  return ({ s.store g with byCampaign }, g)

theorem activate_eq_ok_iff {s t : FlowStore} {id campaign : Uuid} {document : Document}
    {now : Instant} {g : Graph} :
    s.activate id campaign document now = .ok (t, g) ↔
      Graph.compile ⟨id, campaign, s.nextVersion campaign, document, now⟩ = .ok g ∧
        { s.store g with
          byCampaign := s.byCampaign.insert campaign (s.history campaign ++ [g.id]) } = t := by
  unfold activate
  cases Graph.compile ⟨id, campaign, s.nextVersion campaign, document, now⟩ with
  | error v => exact ⟨nofun, nofun⟩
  | ok g' =>
    simp only [bind, Except.bind, pure, Except.pure, Except.ok.injEq, Prod.mk.injEq]
    constructor
    · rintro ⟨h, rfl⟩
      exact ⟨rfl, h⟩
    · rintro ⟨rfl, h⟩
      exact ⟨h, rfl⟩

theorem id_of_activate {s t : FlowStore} {id campaign : Uuid} {document : Document}
    {now : Instant} {g : Graph} (h : s.activate id campaign document now = .ok (t, g)) :
    g.id = id := by
  rw [Graph.id, (Graph.compile_eq_ok_iff.1 (activate_eq_ok_iff.1 h).1).1]

theorem find?_activate {s t : FlowStore} {id campaign : Uuid} {document : Document}
    {now : Instant} {g : Graph} (h : s.activate id campaign document now = .ok (t, g))
    (id' : Uuid) : t.find? id' = if id' = g.id then some g else s.find? id' := by
  obtain ⟨_, rfl⟩ := activate_eq_ok_iff.1 h
  exact s.find?_store g id'

/-- An activated version is the active one. -/
theorem active?_activate {s t : FlowStore} {id campaign : Uuid} {document : Document}
    {now : Instant} {g : Graph} (h : s.activate id campaign document now = .ok (t, g)) :
    t.active? campaign = some g := by
  obtain ⟨_, rfl⟩ := activate_eq_ok_iff.1 h
  simp [active?, history, find?, store]

/-- Puts an id behind the ids whose numbers are not greater, in a list in ascending order. -/
def placeByVersion (number : Uuid → UInt32) (id : Uuid) : List Uuid → List Uuid
  | [] => [id]
  | a :: rest => if number id < number a then id :: a :: rest else a :: placeByVersion number id rest

/-- The ids in ascending order of their numbers, those of the same number in their old order. -/
def sortByVersion (number : Uuid → UInt32) : List Uuid → List Uuid :=
  List.foldl (fun sorted id => placeByVersion number id sorted) []

/-- Takes in a definition with its own id and number. -/
def restore (s : FlowStore) (d : Definition) : Except Violation FlowStore := do
  let g ← Graph.compile d
  let stored := s.store g
  let ids := s.history d.campaignId
  if ids.contains g.id then return stored
  else
    let sorted := sortByVersion (fun id => stored.versionOf (some id)) (ids ++ [g.id])
    return { stored with byCampaign := s.byCampaign.insert d.campaignId sorted }

/-- Takes in a definition, unless its flow breaks a rule. -/
def accept (s : FlowStore) (d : Definition) : FlowStore :=
  match s.restore d with
  | .ok s => s
  | .error _ => s

/-- A stored version is taken in as it was. -/
theorem find?_accept (s : FlowStore) (g : Graph) (id : Uuid) :
    (s.accept g.definition).find? id = if id = g.id then some g else s.find? id := by
  unfold accept restore
  rw [Graph.compile_definition]
  show FlowStore.find? (match (if _ then _ else _ : Except Violation FlowStore) with
    | .ok s => s
    | .error _ => s) id = _
  split
  · next t h =>
    split at h
    · rw [← Except.ok.inj h]; exact s.find?_store g id
    · rw [← Except.ok.inj h]; exact s.find?_store g id
  · next v h => split at h <;> cases h

end FlowStore

end MailCampaign
