import MailCampaign.Proofs.Flow.Legal
import Mathlib.Data.Finset.Card
import Mathlib.Logic.Relation

/-!
# Loops in legal flows

A legal flow may have cycles, but none that a cursor runs through without waiting.

1. The search for steps on paths finds exactly those to which a path leads (`mem_reachableFrom`). A
   path of single edges is one along which a walk leads (`path_iff_walk`), and a cycle is a walk back
   to where it started. So the search finds the edges that lie on cycles (`mem_cycle_iff`), and the
   rules speak about these.
2. A step is prompt if a cursor may leave it as it comes to it: a mail, or a condition that does not
   wait. On a cycle, an edge out of such a step is not the `no` edge of a condition, since the flow
   would have a hasty edge; so it is a prompt edge, and a cycle of these is illegal too.
3. So edges out of prompt steps make no cycle (`atOnce_acyclic`), and along them the number of steps
   that can still follow goes down (`rank_lt`).
-/

namespace MailCampaign

/-! ## Paths -/

/-- An edge leads from one step to another. -/
def Joined (edges : List Edge) (a b : String) : Prop :=
  ∃ e ∈ edges, e.source = a ∧ e.target = b

/-- A path leads from one step to another; each step leads to itself. -/
abbrev Path (edges : List Edge) : String → String → Prop := Relation.ReflTransGen (Joined edges)

theorem Joined.mono {edges edges' : List Edge} (hs : edges ⊆ edges') {a b : String}
    (h : Joined edges a b) : Joined edges' a b := by
  obtain ⟨e, he, h⟩ := h
  exact ⟨e, hs he, h⟩

theorem Path.mono {edges edges' : List Edge} (hs : edges ⊆ edges') {a b : String}
    (h : Path edges a b) : Path edges' a b :=
  Relation.ReflTransGen.mono (fun _ _ h => Joined.mono hs h) _ _ h

theorem edgesElsewhere_subset (edges : List Edge) (id : String) :
    edgesElsewhere edges id ⊆ edges := fun _ h => (List.mem_filter.1 h).1

theorem mem_edgesElsewhere {edges : List Edge} {id : String} {e : Edge} :
    e ∈ edgesElsewhere edges id ↔ e ∈ edges ∧ e.source ≠ id := by
  simp [edgesElsewhere]

theorem mem_edgesFrom {edges : List Edge} {id : String} {e : Edge} :
    e ∈ edgesFrom edges id ↔ e ∈ edges ∧ e.source = id := by
  simp [edgesFrom]

/-- After its last visit of a step, a path uses only edges out of other steps. -/
theorem Path.avoid {edges : List Edge} {a b : String} (h : Path edges a b) (id : String) :
    b = id ∨ Path (edgesElsewhere edges id) a b ∨
      ∃ e ∈ edgesFrom edges id, Path (edgesElsewhere edges id) e.target b := by
  induction h with
  | refl => exact .inr (.inl .refl)
  | @tail b c _ hbc ih =>
    obtain ⟨e, he, rfl, rfl⟩ := hbc
    by_cases hid : e.source = id
    · exact .inr (.inr ⟨e, mem_edgesFrom.2 ⟨he, hid⟩, .refl⟩)
    · have hstep : Joined (edgesElsewhere edges id) e.source e.target :=
        ⟨e, mem_edgesElsewhere.2 ⟨he, hid⟩, rfl, rfl⟩
      rcases ih with hb | hb | ⟨e', he', hb⟩
      · exact absurd hb hid
      · exact .inr (.inl (hb.tail hstep))
      · exact .inr (.inr ⟨e', he', hb.tail hstep⟩)

/-- A path that starts with edges out of other steps starts elsewhere, or it is empty. -/
theorem Path.eq_of_elsewhere {edges : List Edge} {id b : String}
    (h : Path (edgesElsewhere edges id) id b) : b = id := by
  induction h with
  | refl => rfl
  | tail _ hbc ih =>
    obtain ⟨e, he, hs, -⟩ := hbc
    exact absurd (hs.trans ih) (mem_edgesElsewhere.1 he).2

/-- **The search.** It finds exactly the steps on paths from the given ones. -/
theorem mem_reachableFrom {edges : List Edge} {frontier : List String} {b : String} :
    b ∈ reachableFrom edges frontier ↔ ∃ a ∈ frontier, Path edges a b := by
  induction edges, frontier using reachableFrom.induct with
  | case1 edges => simp [reachableFrom]
  | case2 edges id rest ih =>
    rw [reachableFrom, List.mem_cons, ih]
    constructor
    · rintro (rfl | ⟨a, ha, hp⟩)
      · exact ⟨b, List.mem_cons_self, .refl⟩
      · have hp' := hp.mono (edgesElsewhere_subset edges id)
        rcases List.mem_append.1 ha with ha | ha
        · obtain ⟨e, he, rfl⟩ := List.mem_map.1 ha
          obtain ⟨he, hs⟩ := mem_edgesFrom.1 he
          exact ⟨id, List.mem_cons_self, hp'.head ⟨e, he, hs, rfl⟩⟩
        · exact ⟨a, List.mem_cons_of_mem _ ha, hp'⟩
    · rintro ⟨a, ha, hp⟩
      rcases hp.avoid id with hb | hp | ⟨e, he, hp⟩
      · exact .inl hb
      · rcases List.mem_cons.1 ha with rfl | ha
        · exact .inl hp.eq_of_elsewhere
        · exact .inr ⟨a, List.mem_append_right _ ha, hp⟩
      · exact .inr ⟨e.target, List.mem_append_left _ (List.mem_map.2 ⟨e, he, rfl⟩), hp⟩

/-- An edge lies on a cycle exactly when a path leads back over it. -/
theorem onCycle_iff {edges : List Edge} {e : Edge} :
    onCycle edges e = true ↔ Path edges e.target e.source := by
  unfold onCycle leads
  rw [List.contains_iff_mem, mem_reachableFrom]
  constructor
  · rintro ⟨a, ha, hp⟩
    rwa [← List.mem_singleton.1 ha]
  · exact fun hp => ⟨_, List.mem_singleton_self _, hp⟩

/-! ## Walks and cycles -/

section Cycles

/-- Edges that follow each other from one step to another. -/
def Walk (edges : List Edge) (a : String) (l : List Edge) (b : String) : Prop :=
  match l with
  | [] => a = b
  | e :: rest => e ∈ edges ∧ e.source = a ∧ Walk edges e.target rest b

/-- A walk that leads back to where it started. It may pass a step more than once. -/
def Cycle (edges : List Edge) (l : List Edge) : Prop := l ≠ [] ∧ ∃ a, Walk edges a l a

variable {edges edges' : List Edge} {a b c : String} {l l' : List Edge} {e : Edge}

/-- A walk is checked edge by edge. -/
def Walk.decide (edges : List Edge) (b : String) :
    (l : List Edge) → (a : String) → Decidable (Walk edges a l b)
  | [], a => inferInstanceAs (Decidable (a = b))
  | e :: rest, a =>
    have := Walk.decide edges b rest e.target
    inferInstanceAs (Decidable (e ∈ edges ∧ e.source = a ∧ Walk edges e.target rest b))

instance : Decidable (Walk edges a l b) := Walk.decide edges b l a

theorem Walk.append (h : Walk edges a l b) (h' : Walk edges b l' c) :
    Walk edges a (l ++ l') c := by
  induction l generalizing a with
  | nil =>
    obtain rfl : a = b := h
    exact h'
  | cons e rest ih => exact ⟨h.1, h.2.1, ih h.2.2⟩

/-- A walk is cut at each of its edges. -/
theorem Walk.split (h : Walk edges a (l ++ e :: l') b) :
    Walk edges a l e.source ∧ e ∈ edges ∧ Walk edges e.target l' b := by
  induction l generalizing a with
  | nil => exact ⟨h.2.1.symm, h.1, h.2.2⟩
  | cons e' rest ih =>
    obtain ⟨hfirst, hrest⟩ := ih h.2.2
    exact ⟨⟨h.1, h.2.1, hfirst⟩, hrest⟩

/-- A walk whose edges are all among others is one of these. -/
theorem Walk.of_mem (h : Walk edges a l b) (hl : ∀ e ∈ l, e ∈ edges') : Walk edges' a l b := by
  induction l generalizing a with
  | nil => exact h
  | cons e rest ih =>
    exact ⟨hl e List.mem_cons_self, h.2.1, ih h.2.2 fun e' he => hl e' (List.mem_cons_of_mem _ he)⟩

theorem Walk.path (h : Walk edges a l b) : Path edges a b := by
  induction l generalizing a with
  | nil =>
    obtain rfl : a = b := h
    exact .refl
  | cons e rest ih => exact (ih h.2.2).head ⟨e, h.1, h.2.1, rfl⟩

/-- A path leads from one step to another exactly when a walk does. -/
theorem path_iff_walk : Path edges a b ↔ ∃ l, Walk edges a l b := by
  constructor
  · intro h
    induction h using Relation.ReflTransGen.head_induction_on with
    | refl => exact ⟨[], rfl⟩
    | head h _ ih =>
      obtain ⟨e, he, rfl, rfl⟩ := h
      obtain ⟨l, hl⟩ := ih
      exact ⟨e :: l, he, rfl, hl⟩
  · rintro ⟨l, hl⟩
    exact hl.path

theorem Cycle.of_mem (h : Cycle edges l) (hl : ∀ e ∈ l, e ∈ edges') : Cycle edges' l := by
  obtain ⟨hne, a, hw⟩ := h
  exact ⟨hne, a, hw.of_mem hl⟩

/-- An edge of a cycle is one that a path leads back over. -/
theorem Cycle.path (h : Cycle edges l) (he : e ∈ l) : e ∈ edges ∧ Path edges e.target e.source := by
  obtain ⟨-, a, hw⟩ := h
  obtain ⟨first, rest, rfl⟩ := List.append_of_mem he
  obtain ⟨hfirst, hmem, hrest⟩ := hw.split
  exact ⟨hmem, hrest.path.trans hfirst.path⟩

/-- The edges that lie on cycles are those that the search finds. -/
theorem mem_cycle_iff : (∃ l, Cycle edges l ∧ e ∈ l) ↔ e ∈ edges ∧ onCycle edges e = true := by
  rw [onCycle_iff]
  constructor
  · rintro ⟨l, hl, he⟩
    exact hl.path he
  · rintro ⟨he, hp⟩
    obtain ⟨l, hl⟩ := path_iff_walk.1 hp
    exact ⟨e :: l, ⟨List.cons_ne_nil _ _, e.source, he, rfl, hl⟩, List.mem_cons_self⟩

/-- There is no cycle exactly when no edge lies on one. -/
theorem no_cycle_iff : (∀ l, ¬ Cycle edges l) ↔ edges.filter (onCycle edges) = [] := by
  rw [List.filter_eq_nil_iff]
  constructor
  · intro h e he hon
    obtain ⟨l, hl, -⟩ := mem_cycle_iff.2 ⟨he, hon⟩
    exact h l hl
  · intro h l hl
    obtain ⟨e, he⟩ := List.exists_mem_of_ne_nil l hl.1
    obtain ⟨hmem, hon⟩ := mem_cycle_iff.1 ⟨l, hl, he⟩
    exact h e hmem hon

end Cycles

/-! ## Edges out of prompt steps -/

namespace Graph

variable {g : Graph}

theorem Joins.joined {a b : String} (h : g.Joins a b) :
    Joined g.definition.document.edges a b := by
  obtain ⟨branch, next, hn, rfl⟩ := h
  obtain ⟨e, he, hnode⟩ := exists_exit?_of_next? hn
  obtain ⟨hmem, hs⟩ := mem_of_exit? he
  exact ⟨e, hmem, hs, (id_of_node? hnode).symm⟩

/-- An edge leads to a step of the flow. -/
theorem Joins.mem {a b : String} (h : g.Joins a b) :
    b ∈ g.definition.document.nodes.map Node.id := by
  obtain ⟨branch, next, hn, rfl⟩ := h
  exact List.mem_map.2 ⟨next, Document.mem_of_node? (node?_of_next? hn), rfl⟩

/-- On a cycle, an edge out of a prompt step is a prompt edge. -/
theorem AtOnce.prompt {a b : String} (h : g.AtOnce a b)
    (hback : Path g.definition.document.edges b a) :
    Joined g.definition.document.promptEdges a b := by
  obtain ⟨node, hnode, hprompt, hj⟩ := h
  obtain ⟨e, he, rfl, rfl⟩ := hj.joined
  refine ⟨e, List.mem_filter.2 ⟨he, ?_⟩, rfl, rfl⟩
  have hfind : g.definition.document.node? e.source = some node := hnode
  cases ht : g.definition.document.timeoutCondition? e with
  | none => rfl
  | some k =>
    -- The edge is the `no` edge of a condition, which does not wait as the step is prompt.
    exfalso
    have hzero : k.wait.isZero = true := by
      unfold Document.timeoutCondition? at ht
      rw [hfind] at ht
      rcases hprompt with ⟨mail, ha⟩ | ⟨k', ha, hz⟩
      · simp [ha] at ht
      · simp only [Option.map_some, ha] at ht
        split at ht
        · rw [← Option.some.inj ht]; exact hz
        · cases ht
    have hhasty : e ∈ g.definition.document.hastyEdges := by
      refine List.mem_filter.2 ⟨he, ?_⟩
      rw [ht]
      exact Bool.and_eq_true_iff.2 ⟨hzero, onCycle_iff.2 hback⟩
    rw [g.lawful.loops] at hhasty
    cases hhasty

theorem AtOnce.joins {a b : String} (h : g.AtOnce a b) : g.Joins a b := by
  obtain ⟨_, _, _, hj⟩ := h
  exact hj

theorem AtOnce.joined {a b : String} (h : g.AtOnce a b) :
    Joined g.definition.document.edges a b := h.joins.joined

theorem path_of_atOnce {a b : String} (h : Relation.TransGen g.AtOnce a b) :
    Path g.definition.document.edges a b := by
  induction h with
  | single h => exact .single h.joined
  | tail _ h ih => exact ih.tail h.joined

/-- A chain of edges out of prompt steps is one of prompt edges, if a path leads back over it. -/
theorem prompt_of_cycle {a b : String} (h : Relation.TransGen g.AtOnce a b)
    (hback : Path g.definition.document.edges b a) :
    Relation.TransGen (Joined g.definition.document.promptEdges) a b := by
  induction h with
  | single h => exact .single (h.prompt hback)
  | @tail b c hab hbc ih =>
    have hcb : Path g.definition.document.edges c b := hback.trans (path_of_atOnce hab)
    exact (ih (hback.head hbc.joined)).tail (hbc.prompt hcb)

/-- **No endless running.** The edges out of prompt steps make no cycle. -/
theorem atOnce_acyclic (g : Graph) (a : String) : ¬ Relation.TransGen g.AtOnce a a := by
  intro h
  obtain ⟨b, ⟨e, he, rfl, rfl⟩, hback⟩ := Relation.TransGen.head'_iff.1 (prompt_of_cycle h .refl)
  have hcycling : e ∈ g.definition.document.cyclingEdges :=
    List.mem_filter.2 ⟨he, onCycle_iff.2 hback⟩
  rw [g.lawful.cycles] at hcycling
  cases hcycling

/-! ## Rank -/

section Rank

open scoped Classical

/-- The number of steps that can follow a step at once. -/
noncomputable def rank (g : Graph) (a : String) : Nat :=
  ((g.definition.document.nodes.map Node.id).toFinset.filter
    fun b => Relation.TransGen g.AtOnce a b).card

/-- Fewer steps can follow each further step. -/
theorem rank_lt {a b : String} (h : g.AtOnce a b) : g.rank b < g.rank a := by
  unfold rank
  refine Finset.card_lt_card (Finset.ssubset_iff_of_subset ?_ |>.2 ⟨b, ?_, ?_⟩)
  · intro c hc
    rw [Finset.mem_filter] at hc ⊢
    exact ⟨hc.1, hc.2.head h⟩
  · rw [Finset.mem_filter, List.mem_toFinset]
    exact ⟨h.joins.mem, .single h⟩
  · rw [Finset.mem_filter]
    exact fun hb => g.atOnce_acyclic b hb.2

/-- The steps that can follow a step at once do not include it. -/
theorem rank_lt_size {a : String} (h : a ∈ g.definition.document.nodes.map Node.id) :
    g.rank a < g.size := by
  have hcard : (g.definition.document.nodes.map Node.id).toFinset.card ≤ g.size := by
    have := List.toFinset_card_le (g.definition.document.nodes.map Node.id)
    rwa [List.length_map] at this
  refine Nat.lt_of_lt_of_le (Finset.card_lt_card ?_) hcard
  refine Finset.ssubset_iff_of_subset (Finset.filter_subset _ _) |>.2 ⟨a, ?_, ?_⟩
  · rwa [List.mem_toFinset]
  · rw [Finset.mem_filter]
    exact fun ha => g.atOnce_acyclic a ha.2

end Rank

end Graph

end MailCampaign
