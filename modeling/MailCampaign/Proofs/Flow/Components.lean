import MailCampaign.Proofs.Flow.Offenders

/-!
# Cycles by components

The cycles of a directed graph are often looked for by its strongly connected components: the steps of a
component lead to each other, and to no others that lead back to them. A component is busy if it has two
steps or an edge from its one step to itself. The steps of busy components are those that cycles pass,
and the edges within them are those that cycles pass, so the report of the cycles of prompt edges may be
read off from any list of the components (`checkCycles_eq_components`).
-/

namespace MailCampaign

/-- The strongly connected components of a flow along some edges, in any order: each step is in one of
them, and a step shares its component with those that paths lead to and back from. -/
structure Components (d : Document) (edges : List Edge) (components : List (List String)) :
    Prop where
  partition : components.flatten.Perm (d.nodes.map Node.id)
  connected : ∀ c ∈ components, ∀ a ∈ c, ∀ b,
    b ∈ c ↔ d.Names b ∧ Path edges a b ∧ Path edges b a

/-- A component with two steps, or with an edge from its one step to itself. -/
def busyComponent (edges : List Edge) : List String → Bool
  | [] => false
  | [id] => edges.any fun e => e.source == id && e.target == id
  | _ => true

/-- An edge within one of some components. -/
def inOneOf (components : List (List String)) (e : Edge) : Bool :=
  components.any fun c => c.contains e.source && c.contains e.target

variable {d : Document} {edges : List Edge} {components : List (List String)} {c : List String}
  {e : Edge} {id : String}

theorem inOneOf_iff : inOneOf components e = true ↔ ∃ c ∈ components, e.source ∈ c ∧ e.target ∈ c := by
  unfold inOneOf
  simp only [List.any_eq_true, Bool.and_eq_true, List.contains_iff_mem]

/-- A path to another step starts with an edge. -/
theorem Path.first {a b : String} (h : Path edges a b) (hne : a ≠ b) :
    ∃ e ∈ edges, e.source = a ∧ Path edges e.target b := by
  rcases Relation.ReflTransGen.cases_head h with rfl | ⟨_, ⟨e, he, rfl, rfl⟩, hrest⟩
  · exact absurd rfl hne
  · exact ⟨e, he, rfl, hrest⟩

namespace Components

theorem exists_mem (h : Components d edges components) (hid : d.Names id) :
    ∃ c ∈ components, id ∈ c := by
  obtain ⟨n, hn, rfl⟩ := hid
  exact List.mem_flatten.1 (h.partition.mem_iff.2 (List.mem_map_of_mem hn))

/-- No step is listed twice. -/
theorem nodup (h : Components d edges components) (hids : (d.nodes.map Node.id).Nodup)
    (hc : c ∈ components) : c.Nodup :=
  (List.nodup_flatten.1 (h.partition.nodup_iff.2 hids)).1 c hc

/-- An edge that lies on a cycle stays within a busy component. -/
theorem busy_of_onCycle (h : Components d edges components) (he : e ∈ edges)
    (hs : d.Names e.source) (ht : d.Names e.target) (hon : onCycle edges e = true) :
    ∃ c ∈ components.filter (busyComponent edges), e.source ∈ c ∧ e.target ∈ c := by
  obtain ⟨c, hc, hsource⟩ := h.exists_mem hs
  have hthere : Path edges e.source e.target := .single ⟨e, he, rfl, rfl⟩
  have htarget : e.target ∈ c :=
    (h.connected c hc _ hsource _).2 ⟨ht, hthere, onCycle_iff.1 hon⟩
  refine ⟨c, List.mem_filter.2 ⟨hc, ?_⟩, hsource, htarget⟩
  match c with
  | [a] =>
    rw [List.mem_singleton] at hsource htarget
    exact List.any_eq_true.2 ⟨e, he, by rw [hsource, htarget]; simp⟩
  | _ :: _ :: _ => rfl

/-- An edge within a component lies on a cycle. -/
theorem onCycle_of_mem (h : Components d edges components) (hc : c ∈ components)
    (hs : e.source ∈ c) (ht : e.target ∈ c) : onCycle edges e = true :=
  onCycle_iff.2 ((h.connected c hc _ ht _).1 hs).2.1

/-- Each step of a busy component has an edge out of it that lies on a cycle. -/
theorem exists_onCycle (h : Components d edges components) (hids : (d.nodes.map Node.id).Nodup)
    (hc : c ∈ components.filter (busyComponent edges)) (hid : id ∈ c) :
    ∃ e ∈ edges, e.source = id ∧ onCycle edges e = true := by
  obtain ⟨hmem, hbusy⟩ := List.mem_filter.1 hc
  by_cases hother : ∃ b ∈ c, id ≠ b
  · obtain ⟨b, hb, hne⟩ := hother
    obtain ⟨-, hthere, hback⟩ := (h.connected c hmem id hid b).1 hb
    obtain ⟨e, he, rfl, hrest⟩ := hthere.first hne
    exact ⟨e, he, rfl, onCycle_iff.2 (hrest.trans hback)⟩
  · push Not at hother
    match c with
    | [a] =>
      obtain ⟨e, he, hloop⟩ := List.any_eq_true.1 hbusy
      rw [Bool.and_eq_true, beq_iff_eq, beq_iff_eq] at hloop
      refine ⟨e, he, hloop.1.trans (hother a List.mem_cons_self).symm, onCycle_iff.2 ?_⟩
      rw [hloop.1, hloop.2]
    | a :: b :: rest =>
      have hsame : a = b := (hother a (by simp)).symm.trans (hother b (by simp))
      have hnodup := h.nodup hids hmem
      simp [hsame] at hnodup

end Components

/-- **Cycles by components.** The report of the cycles of prompt edges lists the steps of the busy
components in the order of their ids, and the edges within these components. -/
theorem Document.checkCycles_eq_components (hids : d.Keeps .duplicateId)
    (hends : d.Keeps .danglingEdge) (h : Components d d.promptEdges components) :
    d.checkCycles = accuse .cycle
      ((components.filter (busyComponent d.promptEdges)).flatten.mergeSort fun a b => decide (a ≤ b))
      ((d.promptEdges.filter (inOneOf (components.filter (busyComponent d.promptEdges)))).map Edge.id) := by
  have hprompt : ∀ e ∈ d.promptEdges, d.Names e.source ∧ d.Names e.target :=
    fun e he => hends e ((mem_promptEdges hids.1).1 he).1
  have hedges : d.cyclingEdges =
      d.promptEdges.filter (inOneOf (components.filter (busyComponent d.promptEdges))) := by
    refine List.filter_congr fun e he => Bool.eq_iff_iff.2 (Iff.trans ?_ inOneOf_iff.symm)
    constructor
    · exact fun hon => h.busy_of_onCycle he (hprompt e he).1 (hprompt e he).2 hon
    · rintro ⟨c, hc, hs, ht⟩
      exact h.onCycle_of_mem (List.mem_filter.1 hc).1 hs ht
  have hbusy : (components.filter (busyComponent d.promptEdges)).flatten.Nodup := by
    obtain ⟨hnodup, hdisjoint⟩ := List.nodup_flatten.1 (h.partition.nodup_iff.2 hids.1)
    exact List.nodup_flatten.2
      ⟨fun c hc => hnodup c (List.mem_filter.1 hc).1, hdisjoint.filter _⟩
  have hsteps : ((d.nodes.filter fun n => d.cyclingEdges.any fun e => e.source == n.id).map
      Node.id).Nodup := hids.1.sublist (List.filter_sublist.map _)
  have hnodes : ((d.nodes.filter fun n => d.cyclingEdges.any fun e => e.source == n.id).map
      Node.id).mergeSort (fun a b => decide (a ≤ b)) =
      (components.filter (busyComponent d.promptEdges)).flatten.mergeSort fun a b => decide (a ≤ b) := by
    refine (pairwise_sorted hsteps).eq_of_mem_iff (pairwise_sorted hbusy) fun id => ?_
    rw [List.mem_mergeSort, List.mem_mergeSort, List.mem_flatten, mem_cyclingSteps hids hends]
    constructor
    · rintro ⟨e, he, rfl⟩
      obtain ⟨he, hon⟩ := List.mem_filter.1 he
      obtain ⟨c, hc, hmem, -⟩ := h.busy_of_onCycle he (hprompt e he).1 (hprompt e he).2 hon
      exact ⟨c, hc, hmem⟩
    · rintro ⟨c, hc, hid⟩
      obtain ⟨e, he, hs, hon⟩ := h.exists_onCycle hids.1 hc hid
      exact ⟨e, List.mem_filter.2 ⟨he, hon⟩, hs⟩
  unfold checkCycles
  dsimp only
  rw [hnodes, ← hedges]

end MailCampaign
