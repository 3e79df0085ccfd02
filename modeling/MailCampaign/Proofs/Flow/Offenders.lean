import MailCampaign.Proofs.Flow.Rules
import Mathlib.Data.List.Sort
import Mathlib.Data.String.Basic

/-!
# The report of a broken rule

A flow that breaks rules is refused with a report of the first of them. `Keeps` says what each rule asks
for, and `Offenders` which steps and edges the report of it has to list, both in terms of the steps,
edges, walks and cycles of the flow alone.

1. What a report lists is gathered from a list in its order (`Gathers`). A check that filters gathers
   just that (`gathers_filter`), and so do the searches for ids that repeat (`gathers_repeats`) and for
   first uses (`gathers_firstUses`).
2. An edge that a path leads back over lies on a cycle that passes each of its steps once
   (`exists_simple_iff`).
3. Each check that fails reports the offenders against its rule. So a flow is refused with a report
   exactly when the rule is the first that it breaks and the lists are the offenders against it
   (`validate_eq_error_iff`).
-/

namespace MailCampaign

/-! ## Gathering -/

/-- What the members of a list with a property give, in the order of the list. -/
inductive Gathers {α β : Type} (P : α → Prop) (give : α → List β) : List α → List β → Prop
  | nil : Gathers P give [] []
  | take {a : α} {rest : List α} {given : List β} :
      P a → Gathers P give rest given → Gathers P give (a :: rest) (give a ++ given)
  | skip {a : α} {rest : List α} {given : List β} :
      ¬ P a → Gathers P give rest given → Gathers P give (a :: rest) given

section Gathering

variable {α β : Type} {P : α → Prop} {give : α → List β} {l : List α} {given given' : List β}

/-- There is just one list to gather. -/
theorem Gathers.unique (h : Gathers P give l given) (h' : Gathers P give l given') :
    given = given' := by
  induction h generalizing given' with
  | nil => cases h'; rfl
  | take ha _ ih =>
    cases h' with
    | take _ hrest => rw [ih hrest]
    | skip hno _ => exact absurd ha hno
  | skip hno _ ih =>
    cases h' with
    | take ha _ => exact absurd ha hno
    | skip _ hrest => exact ih hrest

theorem gathers_filter {p : α → Bool} (hp : ∀ a ∈ l, p a = true ↔ P a) :
    Gathers P give l ((l.filter p).flatMap give) := by
  induction l with
  | nil => exact .nil
  | cons a rest ih =>
    obtain ⟨ha, hrest⟩ := List.forall_mem_cons.1 hp
    by_cases hpa : p a = true
    · rw [List.filter_cons_of_pos hpa, List.flatMap_cons]
      exact .take (ha.1 hpa) (ih hrest)
    · rw [List.filter_cons_of_neg hpa]
      exact .skip (fun h => hpa (ha.2 h)) (ih hrest)

/-- What is gathered of each member alone. -/
theorem gathers_filter_map {p : α → Bool} (hp : ∀ a ∈ l, p a = true ↔ P a) (f : α → β) :
    Gathers P (fun a => [f a]) l ((l.filter p).map f) := by
  rw [List.map_eq_flatMap]
  exact gathers_filter hp

/-- The same, when the property is to be one of the members that are left. -/
theorem gathers_members {p : α → Bool} (hp : ∀ a, a ∈ l.filter p ↔ P a) (f : α → β) :
    Gathers P (fun a => [f a]) l ((l.filter p).map f) := by
  refine gathers_filter_map (fun a ha => ?_) f
  rw [← hp a, List.mem_filter, and_iff_right ha]

end Gathering

/-! ## Repeated ids -/

/-- What stands at a place of a list stands at an earlier place as well. A place is what stands there
together with its number. -/
def Repeats (ids : List String) (place : String × Nat) : Prop := place.1 ∈ ids.take place.2

/-- The ids at the places of a list that have a property, in the order of the places. -/
abbrev AtPlaces (ids : List String) (P : String × Nat → Prop) : List String → Prop :=
  Gathers P (fun place => [place.1]) ids.zipIdx

section Places

variable {before ids seen : List String} {id : String} {q : String → Bool}

theorem repeats_here : Repeats (before ++ id :: ids) (id, before.length) ↔ id ∈ before := by
  unfold Repeats
  rw [List.take_left]

theorem zipIdx_behind (before : List String) (id : String) (rest : List String) :
    (id :: rest).zipIdx before.length =
      (id, before.length) :: rest.zipIdx (before ++ [id]).length := by
  rw [List.zipIdx_cons, List.length_append]
  rfl

/-- The search for repeated ids, behind those of a list. -/
theorem gathers_repeatsAfter (hseen : ∀ id, id ∈ seen ↔ id ∈ before) :
    Gathers (Repeats (before ++ ids)) (fun place => [place.1]) (ids.zipIdx before.length)
      (Document.repeatsAfter seen ids) := by
  induction ids generalizing seen before with
  | nil => exact .nil
  | cons id rest ih =>
    rw [zipIdx_behind]
    unfold Document.repeatsAfter
    split
    · next hid =>
      have hold : id ∈ before := (hseen id).1 (List.contains_iff_mem.1 hid)
      refine .take (repeats_here.2 hold) ?_
      rw [List.append_cons before]
      refine ih fun id' => ?_
      rw [hseen, List.mem_append, List.mem_singleton]
      exact ⟨.inl, fun h => h.elim (fun h => h) fun h => h ▸ hold⟩
    · next hid =>
      refine .skip (fun h => hid (List.contains_iff_mem.2 ((hseen id).2 (repeats_here.1 h)))) ?_
      rw [List.append_cons before]
      refine ih fun id' => ?_
      rw [List.mem_cons, hseen, List.mem_append, List.mem_singleton, or_comm]

theorem gathers_repeats (ids : List String) :
    AtPlaces ids (Repeats ids) (Document.repeats ids) := by
  have hnone : ∀ id : String, id ∈ ([] : List String) ↔ id ∈ ([] : List String) := fun _ => Iff.rfl
  exact gathers_repeatsAfter hnone

/-- The ids that were seen are those of a list that pass a test. -/
def SeenOf (q : String → Bool) (seen before : List String) : Prop :=
  ∀ id, id ∈ seen ↔ id ∈ before ∧ q id = true

theorem SeenOf.add (h : SeenOf q seen before) (hq : q id = true) :
    SeenOf q (seen ++ [id]) (before ++ [id]) := by
  intro id'
  rw [List.mem_append, List.mem_append, List.mem_singleton, h id', or_and_right]
  exact or_congr_right ⟨fun he => ⟨he, he ▸ hq⟩, And.left⟩

theorem SeenOf.pass (h : SeenOf q seen before) (hold : q id = true → id ∈ before) :
    SeenOf q seen (before ++ [id]) := by
  intro id'
  rw [List.mem_append, List.mem_singleton, h id', or_and_right]
  exact ⟨.inl, fun h' => h'.elim (fun h' => h') fun ⟨he, hq⟩ => ⟨he ▸ hold (he ▸ hq), hq⟩⟩

/-- The search for first uses among the ids that pass a test, behind those of a list. -/
theorem gathers_firstUsesAfter (hseen : SeenOf q seen before) :
    ∃ given, (ids.filter q).foldl
        (fun acc id => if acc.contains id then acc else acc ++ [id]) seen = seen ++ given ∧
      Gathers (fun place => q place.1 = true ∧ ¬ Repeats (before ++ ids) place)
        (fun place => [place.1]) (ids.zipIdx before.length) given := by
  induction ids generalizing seen before with
  | nil => exact ⟨[], (List.append_nil _).symm, .nil⟩
  | cons id rest ih =>
    rw [zipIdx_behind, List.append_cons before]
    have hhere : Repeats ((before ++ [id]) ++ rest) (id, before.length) ↔ id ∈ before := by
      rw [← List.append_cons]
      exact repeats_here
    by_cases hq : q id = true
    · rw [List.filter_cons_of_pos hq, List.foldl_cons]
      split
      · next hid =>
        have hold : id ∈ before := ((hseen id).1 (List.contains_iff_mem.1 hid)).1
        obtain ⟨given, hfold, hgiven⟩ := ih (hseen.pass fun _ => hold)
        exact ⟨given, hfold, .skip (fun h => h.2 (hhere.2 hold)) hgiven⟩
      · next hid =>
        have hnew : id ∉ before := fun h => hid (List.contains_iff_mem.2 ((hseen id).2 ⟨h, hq⟩))
        obtain ⟨given, hfold, hgiven⟩ := ih (hseen.add hq)
        refine ⟨id :: given, ?_, .take ⟨hq, fun h => hnew (hhere.1 h)⟩ hgiven⟩
        rw [hfold, List.append_assoc]
        rfl
    · rw [List.filter_cons_of_neg hq]
      obtain ⟨given, hfold, hgiven⟩ := ih (hseen.pass fun h => absurd h hq)
      exact ⟨given, hfold, .skip (fun h => hq h.1) hgiven⟩

theorem gathers_firstUses (ids : List String) (q : String → Bool) :
    AtPlaces ids (fun place => q place.1 = true ∧ ¬ Repeats ids place)
      (Document.firstUses (ids.filter q)) := by
  have hnone : SeenOf q [] [] := fun _ => by simp
  obtain ⟨given, hfold, hgiven⟩ := gathers_firstUsesAfter hnone
  unfold Document.firstUses
  rw [hfold]
  exact hgiven

end Places

/-! ## Simple cycles -/

/-- A cycle that passes each of its steps once. -/
def SimpleCycle (edges l : List Edge) : Prop := Cycle edges l ∧ (l.map Edge.source).Nodup

section Cycles

variable {edges l : List Edge} {a b c : String} {e : Edge}

/-- The rest of a walk, from one of the steps that it passes. -/
theorem Walk.rest (h : Walk edges c l b) (ha : a ∈ l.map Edge.source ++ [b]) :
    ∃ first l', l = first ++ l' ∧ Walk edges a l' b := by
  rcases List.mem_append.1 ha with ha | ha
  · obtain ⟨e, he, rfl⟩ := List.mem_map.1 ha
    obtain ⟨first, more, rfl⟩ := List.append_of_mem he
    obtain ⟨-, hmem, hmore⟩ := h.split
    exact ⟨first, e :: more, rfl, hmem, rfl, hmore⟩
  · exact ⟨l, [], (List.append_nil l).symm, List.mem_singleton.1 ha⟩

/-- Where a walk leads, one leads that passes no step twice: when the walk comes back to its first step,
what lies between is left out. -/
theorem Walk.exists_simple (h : Walk edges a l b) :
    ∃ l', Walk edges a l' b ∧ (l'.map Edge.source ++ [b]).Nodup := by
  induction l generalizing a with
  | nil => exact ⟨[], h, List.nodup_singleton b⟩
  | cons e rest ih =>
    obtain ⟨he, rfl, hrest⟩ := h
    obtain ⟨l', hl', hnodup⟩ := ih hrest
    by_cases hback : e.source ∈ l'.map Edge.source ++ [b]
    · obtain ⟨first, l'', rfl, hl''⟩ := hl'.rest hback
      rw [List.map_append, List.append_assoc] at hnodup
      exact ⟨l'', hl'', hnodup.of_append_right⟩
    · exact ⟨e :: l', ⟨he, rfl, hl'⟩, List.nodup_cons.2 ⟨hback, hnodup⟩⟩

/-- The edges that lie on simple cycles are those that the search finds. -/
theorem exists_simple_iff :
    (∃ l, SimpleCycle edges l ∧ e ∈ l) ↔ e ∈ edges ∧ onCycle edges e = true := by
  constructor
  · rintro ⟨l, ⟨hl, -⟩, he⟩
    exact mem_cycle_iff.1 ⟨l, hl, he⟩
  · rintro ⟨he, hback⟩
    obtain ⟨l, hl⟩ := path_iff_walk.1 (onCycle_iff.1 hback)
    obtain ⟨l', hl', hnodup⟩ := hl.exists_simple
    refine ⟨e :: l', ⟨⟨List.cons_ne_nil _ _, e.source, he, rfl, hl'⟩, ?_⟩, List.mem_cons_self⟩
    exact (List.perm_append_singleton _ _).nodup_iff.1 hnodup

end Cycles

/-! ## Rules -/

/-- The rules in the order in which they are checked. -/
def Rule.all : List Rule :=
  [.duplicateId, .danglingEdge, .entryCount, .goalHasOutgoing, .tooManyOutgoing,
    .conditionBranches, .unreachable, .cycle, .unboundedLoop]

namespace Document

/-- No edge leads to a step. -/
def IsEntry (d : Document) (n : Node) : Prop := n ∈ d.nodes ∧ ∀ e ∈ d.edges, e.target ≠ n.id

/-- A condition has one edge for each answer. -/
def Branches (d : Document) (n : Node) : Prop :=
  ∃ yes no : Edge, yes.branch = .yes ∧ no.branch = .no ∧ (d.outgoing n).Perm [yes, no]

/-- A cycle, passing each of its steps once, that leaves no condition on its `no` branch. -/
def PromptCycle (d : Document) (l : List Edge) : Prop :=
  SimpleCycle d.edges l ∧ ∀ e ∈ l, ∀ k, ¬ d.LeavesOnNo e k

/-- An edge leaves a condition that does not wait on its `no` branch, and a cycle leads back over it. -/
def Hasty (d : Document) (e : Edge) : Prop :=
  ∃ k, d.LeavesOnNo e k ∧ k.wait.isZero = true ∧ ∃ l, SimpleCycle d.edges l ∧ e ∈ l

/-- A flow keeps a rule. -/
def Keeps (d : Document) : Rule → Prop
  | .duplicateId => (d.nodes.map Node.id).Nodup ∧ (d.edges.map Edge.id).Nodup
  | .danglingEdge => ∀ e ∈ d.edges, d.Names e.source ∧ d.Names e.target
  | .entryCount => ∃ entry, ∀ n, d.IsEntry n ↔ n = entry
  | .goalHasOutgoing => ∀ n ∈ d.nodes, n.IsGoal → d.outgoing n = []
  | .tooManyOutgoing => ∀ n ∈ d.nodes, n.Mails ∨ n.Delays → (d.outgoing n).length ≤ 1
  | .conditionBranches => ∀ n ∈ d.nodes, ∀ k, n.action = .condition k → d.Branches n
  | .unreachable =>
    ∀ entry, d.IsEntry entry → ∀ n ∈ d.nodes, ∃ l, Walk d.edges entry.id l n.id
  | .cycle => ∀ l, ¬ d.PromptCycle l
  | .unboundedLoop => ∀ e, ¬ d.Hasty e

/-- A rule is the first that a flow breaks. -/
def FirstBroken (d : Document) (rule : Rule) : Prop :=
  ∃ earlier later, Rule.all = earlier ++ rule :: later ∧ (∀ r ∈ earlier, d.Keeps r) ∧ ¬ d.Keeps rule

/-- The steps with a property, and their outgoing edges step by step. -/
def WithExits (d : Document) (P : Node → Prop) (nodeIds edgeIds : List String) : Prop :=
  Gathers P (fun n => [n.id]) d.nodes nodeIds ∧
    Gathers P (fun n => (d.outgoing n).map Edge.id) d.nodes edgeIds

/-- The steps and the edges that a report has to list, for each rule. -/
def Offenders (d : Document) (nodeIds edgeIds : List String) : Rule → Prop
  | .duplicateId =>
    AtPlaces (d.nodes.map Node.id) (Repeats (d.nodes.map Node.id)) nodeIds ∧
      AtPlaces (d.edges.map Edge.id) (Repeats (d.edges.map Edge.id)) edgeIds
  | .danglingEdge =>
    let ends := d.edges.flatMap fun e => [e.source, e.target]
    AtPlaces ends (fun place => ¬ d.Names place.1 ∧ ¬ Repeats ends place) nodeIds ∧
      Gathers (fun e => ¬ (d.Names e.source ∧ d.Names e.target)) (fun e => [e.id]) d.edges edgeIds
  | .entryCount =>
    ((∃ n, d.IsEntry n) ∧ Gathers d.IsEntry (fun n => [n.id]) d.nodes nodeIds ∨
      (¬ ∃ n, d.IsEntry n) ∧ nodeIds = d.nodes.map Node.id) ∧ edgeIds = []
  | .goalHasOutgoing => d.WithExits (fun n => n.IsGoal ∧ d.outgoing n ≠ []) nodeIds edgeIds
  | .tooManyOutgoing =>
    d.WithExits (fun n => (n.Mails ∨ n.Delays) ∧ 1 < (d.outgoing n).length) nodeIds edgeIds
  | .conditionBranches =>
    d.WithExits (fun n => (∃ k, n.action = .condition k) ∧ ¬ d.Branches n) nodeIds edgeIds
  | .unreachable =>
    Gathers (fun n => ∀ entry, d.IsEntry entry → ¬ ∃ l, Walk d.edges entry.id l n.id)
      (fun n => [n.id]) d.nodes nodeIds ∧ edgeIds = []
  | .cycle =>
    (nodeIds.Pairwise (· < ·) ∧
      ∀ id, id ∈ nodeIds ↔ ∃ l, d.PromptCycle l ∧ id ∈ l.map Edge.source) ∧
      Gathers (fun e => ∃ l, d.PromptCycle l ∧ e ∈ l) (fun e => [e.id]) d.edges edgeIds
  | .unboundedLoop =>
    Gathers d.Hasty (fun e => [e.source]) d.edges nodeIds ∧
      Gathers d.Hasty (fun e => [e.id]) d.edges edgeIds

/-! ## Checks -/

/-- A check for a rule passes only flows that keep the rule, and refuses only those that break it, with
a report of the offenders. -/
structure Checks {α : Type} (d : Document) (rule : Rule) (outcome : Except Violation α) : Prop where
  passed : ∀ a, outcome = .ok a → d.Keeps rule
  refused : ∀ v, outcome = .error v →
    v.rule = rule ∧ ¬ d.Keeps rule ∧ d.Offenders v.nodeIds v.edgeIds rule

section Checks

variable {d : Document} {entry n : Node} {e : Edge} {rule : Rule} {nodeIds edgeIds : List String}

theorem checks_accuse (hkeeps : nodeIds = [] ∧ edgeIds = [] ↔ d.Keeps rule)
    (hoff : d.Offenders nodeIds edgeIds rule) : d.Checks rule (accuse rule nodeIds edgeIds) where
  passed := fun _ h => hkeeps.1 (accuse_eq_ok_iff.1 h)
  refused := by
    intro v h
    unfold accuse at h
    split at h
    · cases h
    · next hbroken =>
      cases h
      exact ⟨rfl, fun h => hbroken (hkeeps.2 h), hoff⟩

theorem checks_ids (d : Document) : d.Checks .duplicateId d.checkIds := by
  unfold checkIds
  refine checks_accuse ?_ ⟨gathers_repeats _, gathers_repeats _⟩
  rw [repeats_eq_nil_iff, repeats_eq_nil_iff]
  rfl

theorem checks_ends (d : Document) : d.Checks .danglingEdge d.checkEnds := by
  have hkeeps : d.checkEnds = .ok ⟨⟩ ↔ d.Keeps .danglingEdge := checkEnds_eq_ok_iff
  have hdangles : ∀ e, (!(d.missingEnds e).isEmpty) = true ↔
      ¬ (d.Names e.source ∧ d.Names e.target) := by
    intro e
    rw [← missingEnds_eq_nil_iff, Bool.not_eq_true', Bool.eq_false_iff, Ne, List.isEmpty_iff]
  have hmissing : d.edges.flatMap d.missingEnds =
      (d.edges.flatMap fun e => [e.source, e.target]).filter fun id => (d.node? id).isNone :=
    (List.filter_flatMap ..).symm
  have hnames : ∀ id, (d.node? id).isNone = true ↔ ¬ d.Names id := by
    intro id
    rw [names_iff, Bool.not_eq_true, Option.isSome_eq_false_iff]
  unfold checkEnds at hkeeps ⊢
  rw [accuse_eq_ok_iff] at hkeeps
  refine checks_accuse hkeeps ⟨?_, gathers_filter_map (fun e _ => hdangles e) _⟩
  have hfirst := gathers_firstUses (d.edges.flatMap fun e => [e.source, e.target])
    fun id => (d.node? id).isNone
  simp only [hnames] at hfirst
  rw [hmissing]
  exact hfirst

theorem checks_entry (hids : d.Keeps .duplicateId) : d.Checks .entryCount d.checkEntry where
  passed := fun entry h =>
    ⟨entry, (entries_eq_singleton_iff hids.1).1 (checkEntry_eq_ok_iff.1 h)⟩
  refused := by
    intro v h
    have hmany : ¬ d.Keeps .entryCount := by
      rintro ⟨entry, hentry⟩
      rw [checkEntry_eq_ok_iff.2 ((entries_eq_singleton_iff hids.1).2 hentry)] at h
      cases h
    have hgathers : Gathers d.IsEntry (fun n => [n.id]) d.nodes (d.entries.map Node.id) :=
      gathers_members (fun _ => mem_entries) _
    unfold checkEntry at h
    split at h
    · cases h
    · next hnone =>
      cases h
      refine ⟨rfl, hmany, .inr ⟨?_, rfl⟩, rfl⟩
      rintro ⟨n, hn⟩
      have hmem := mem_entries.2 hn
      rw [hnone] at hmem
      cases hmem
    · next hsome =>
      cases h
      obtain ⟨n, hn⟩ := List.exists_mem_of_ne_nil _ fun hnil => hsome hnil
      exact ⟨rfl, hmany, .inl ⟨⟨n, mem_entries.1 hn⟩, hgathers⟩, rfl⟩

theorem checks_exits {breaks : Node → Bool} {P : Node → Prop}
    (hbreaks : ∀ n, breaks n = true ↔ P n) (hkeeps : d.Keeps rule ↔ ∀ n ∈ d.nodes, ¬ P n)
    (hoff : ∀ nodeIds edgeIds, d.WithExits P nodeIds edgeIds → d.Offenders nodeIds edgeIds rule) :
    d.Checks rule (d.checkExits rule breaks) := by
  have hpassed : d.checkExits rule breaks = .ok ⟨⟩ ↔ d.Keeps rule := by
    rw [checkExits_eq_ok_iff, hkeeps]
    exact forall₂_congr fun n _ => by rw [← hbreaks, Bool.not_eq_true]
  unfold checkExits at hpassed ⊢
  rw [accuse_eq_ok_iff] at hpassed
  exact checks_accuse hpassed (hoff _ _ ⟨gathers_filter_map (fun n _ => hbreaks n) _,
    gathers_filter fun n _ => hbreaks n⟩)

theorem goalWithExit_iff : d.goalWithExit n = true ↔ n.IsGoal ∧ d.outgoing n ≠ [] := by
  rw [← Bool.not_eq_false, goalWithExit_eq_false_iff, Classical.not_imp]

theorem severalExits_iff :
    d.severalExits n = true ↔ (n.Mails ∨ n.Delays) ∧ 1 < (d.outgoing n).length := by
  rw [← Bool.not_eq_false, severalExits_eq_false_iff, Classical.not_imp, Nat.not_le]

theorem unclearBranches_iff :
    d.unclearBranches n = true ↔ (∃ k, n.action = .condition k) ∧ ¬ d.Branches n := by
  rw [← Bool.not_eq_false, unclearBranches_eq_false_iff, ← exists_imp, Classical.not_imp]
  rfl

theorem checks_goals (d : Document) :
    d.Checks .goalHasOutgoing (d.checkExits .goalHasOutgoing d.goalWithExit) := by
  refine checks_exits (fun _ => goalWithExit_iff) ?_ fun _ _ h => h
  exact forall₂_congr fun n _ => by rw [not_and, not_not]

theorem checks_several (d : Document) :
    d.Checks .tooManyOutgoing (d.checkExits .tooManyOutgoing d.severalExits) := by
  refine checks_exits (fun _ => severalExits_iff) ?_ fun _ _ h => h
  exact forall₂_congr fun n _ => by rw [not_and, Nat.not_lt]

theorem checks_branches (d : Document) :
    d.Checks .conditionBranches (d.checkExits .conditionBranches d.unclearBranches) := by
  refine checks_exits (fun _ => unclearBranches_iff) ?_ fun _ _ h => h
  exact forall₂_congr fun n _ => by rw [not_and, not_not, exists_imp]

theorem checks_reached (hentry : ∀ n, d.IsEntry n ↔ n = entry) :
    d.Checks .unreachable (d.checkReached entry) := by
  have honly : ∀ P : Node → Prop, (∀ n, d.IsEntry n → P n) ↔ P entry := by
    intro P
    simp only [hentry, forall_eq]
  have hpassed : d.checkReached entry = .ok ⟨⟩ ↔ d.Keeps .unreachable :=
    checkReached_eq_ok_iff.trans
      (honly fun m => ∀ n ∈ d.nodes, ∃ l, Walk d.edges m.id l n.id).symm
  have hreached : ∀ n : Node, (!(reachableFrom d.edges [entry.id]).contains n.id) = true ↔
      ∀ m, d.IsEntry m → ¬ ∃ l, Walk d.edges m.id l n.id := by
    intro n
    rw [honly fun m => ¬ ∃ l, Walk d.edges m.id l n.id, ← path_iff_walk, Bool.not_eq_true',
      Bool.eq_false_iff, Ne, List.contains_iff_mem, mem_reachableFrom]
    simp
  unfold checkReached at hpassed ⊢
  rw [accuse_eq_ok_iff] at hpassed
  exact checks_accuse hpassed ⟨gathers_filter_map (fun n _ => hreached n) _, rfl⟩

/-- Distinct ids are strictly ascending when they are sorted. -/
theorem pairwise_sorted {ids : List String} (hids : ids.Nodup) :
    (ids.mergeSort fun a b => decide (a ≤ b)).Pairwise (· < ·) := by
  have htrans : ∀ a b c : String,
      decide (a ≤ b) = true → decide (b ≤ c) = true → decide (a ≤ c) = true :=
    fun a b c hab hbc => decide_eq_true (le_trans (of_decide_eq_true hab) (of_decide_eq_true hbc))
  have htotal : ∀ a b : String, (decide (a ≤ b) || decide (b ≤ a)) = true :=
    fun a b => by simpa using le_total a b
  refine ((List.pairwise_mergeSort htrans htotal ids).and
    ((List.mergeSort_perm ids _).nodup_iff.2 hids)).imp fun h => ?_
  exact lt_of_le_of_ne (of_decide_eq_true h.1) h.2

/-- A prompt cycle is a simple cycle of prompt edges. -/
theorem promptCycle_iff (hids : d.Keeps .duplicateId) {l : List Edge} :
    d.PromptCycle l ↔ SimpleCycle d.promptEdges l := by
  constructor
  · rintro ⟨⟨hl, hnodup⟩, hprompt⟩
    exact ⟨hl.of_mem fun e he => (mem_promptEdges hids.1).2 ⟨(hl.path he).1, hprompt e he⟩, hnodup⟩
  · rintro ⟨hl, hnodup⟩
    have hmem : ∀ e ∈ l, e ∈ d.edges ∧ ∀ k, ¬ d.LeavesOnNo e k :=
      fun e he => (mem_promptEdges hids.1).1 (hl.path he).1
    exact ⟨⟨hl.of_mem fun e he => (hmem e he).1, hnodup⟩, fun e he => (hmem e he).2⟩

theorem mem_cyclingEdges (hids : d.Keeps .duplicateId) :
    e ∈ d.cyclingEdges ↔ ∃ l, d.PromptCycle l ∧ e ∈ l := by
  unfold cyclingEdges
  simp only [promptCycle_iff hids]
  rw [List.mem_filter, exists_simple_iff]

/-- The steps in the report of cycles are those that edges on cycles lead out of. -/
theorem mem_cyclingSteps (hids : d.Keeps .duplicateId) (hends : d.Keeps .danglingEdge) {id : String} :
    id ∈ (d.nodes.filter fun n => d.cyclingEdges.any fun e => e.source == n.id).map Node.id ↔
      ∃ e ∈ d.cyclingEdges, e.source = id := by
  constructor
  · intro h
    obtain ⟨n, hn, rfl⟩ := List.mem_map.1 h
    obtain ⟨e, he, hs⟩ := List.any_eq_true.1 (List.mem_filter.1 hn).2
    exact ⟨e, he, beq_iff_eq.1 hs⟩
  · rintro ⟨e, he, rfl⟩
    have hmem : e ∈ d.edges := ((mem_promptEdges hids.1).1 (List.mem_filter.1 he).1).1
    obtain ⟨n, hn, hs⟩ := (hends e hmem).1
    refine List.mem_map.2 ⟨n, List.mem_filter.2 ⟨hn, ?_⟩, hs⟩
    exact List.any_eq_true.2 ⟨e, he, beq_iff_eq.2 hs.symm⟩

theorem keeps_cycle_iff (hids : d.Keeps .duplicateId) : d.Keeps .cycle ↔ d.cyclingEdges = [] := by
  rw [List.eq_nil_iff_forall_not_mem]
  simp only [mem_cyclingEdges hids, not_exists, not_and]
  constructor
  · exact fun h e l hl => absurd hl (h l)
  · intro h l hl
    obtain ⟨e, he⟩ := List.exists_mem_of_ne_nil l hl.1.1.1
    exact h e l hl he

theorem checks_cycles (hids : d.Keeps .duplicateId) (hends : d.Keeps .danglingEdge) :
    d.Checks .cycle d.checkCycles := by
  have hpassed : d.checkCycles = .ok ⟨⟩ ↔ d.Keeps .cycle :=
    checkCycles_eq_ok_iff.trans (keeps_cycle_iff hids).symm
  have hedges : d.cyclingEdges =
      d.edges.filter fun e => onCycle d.promptEdges e && (d.timeoutCondition? e).isNone :=
    List.filter_filter
  unfold checkCycles at hpassed ⊢
  rw [accuse_eq_ok_iff] at hpassed
  refine checks_accuse hpassed ⟨⟨?_, fun id => ?_⟩, ?_⟩
  · exact pairwise_sorted (hids.1.sublist (List.filter_sublist.map _))
  · rw [List.mem_mergeSort, mem_cyclingSteps hids hends]
    constructor
    · rintro ⟨e, he, rfl⟩
      obtain ⟨l, hl, hel⟩ := (mem_cyclingEdges hids).1 he
      exact ⟨l, hl, List.mem_map_of_mem hel⟩
    · rintro ⟨l, hl, h⟩
      obtain ⟨e, he, rfl⟩ := List.mem_map.1 h
      exact ⟨e, (mem_cyclingEdges hids).2 ⟨l, hl, he⟩, rfl⟩
  · have hgathers := gathers_members (l := d.edges)
      (fun e => hedges ▸ mem_cyclingEdges hids) Edge.id
    rw [hedges]
    exact hgathers

theorem mem_hastyEdges_iff (hids : d.Keeps .duplicateId) : e ∈ d.hastyEdges ↔ d.Hasty e := by
  rw [mem_hastyEdges hids.1, ← exists_simple_iff]
  unfold Hasty
  constructor
  · rintro ⟨hl, k, hk, hz⟩
    exact ⟨k, hk, hz, hl⟩
  · rintro ⟨k, hk, hz, hl⟩
    exact ⟨hl, k, hk, hz⟩

theorem checks_loops (hids : d.Keeps .duplicateId) : d.Checks .unboundedLoop d.checkLoops := by
  have hpassed : d.checkLoops = .ok ⟨⟩ ↔ d.Keeps .unboundedLoop := by
    rw [checkLoops_eq_ok_iff, List.eq_nil_iff_forall_not_mem]
    exact forall_congr' fun e => not_congr (mem_hastyEdges_iff hids)
  unfold checkLoops at hpassed ⊢
  rw [accuse_eq_ok_iff] at hpassed
  exact checks_accuse hpassed ⟨gathers_members (fun _ => mem_hastyEdges_iff hids) _,
    gathers_members (fun _ => mem_hastyEdges_iff hids) _⟩

end Checks

/-! ## The report -/

section Report

variable {d : Document} {α β : Type} {rule rule' : Rule} {earlier later : List Rule}
  {nodeIds nodeIds' edgeIds edgeIds' : List String}

/-- There is just one first broken rule. -/
theorem FirstBroken.unique (h : d.FirstBroken rule) (h' : d.FirstBroken rule') : rule = rule' := by
  obtain ⟨earlier, later, hall, hkept, hbroken⟩ := h
  obtain ⟨earlier', later', hall', hkept', hbroken'⟩ := h'
  rcases List.append_eq_append_iff.1 (hall.symm.trans hall') with ⟨l, rfl, hl⟩ | ⟨l, rfl, hl⟩
  · cases l with
    | nil => exact (List.cons.inj hl).1
    | cons r l =>
      obtain ⟨rfl, -⟩ := List.cons.inj hl
      exact absurd (hkept' rule (List.mem_append_right _ List.mem_cons_self)) hbroken
  · cases l with
    | nil => exact (List.cons.inj hl).1.symm
    | cons r l =>
      obtain ⟨rfl, -⟩ := List.cons.inj hl
      exact absurd (hkept rule' (List.mem_append_right _ List.mem_cons_self)) hbroken'

/-- There is just one way to list the offenders. -/
theorem Offenders.unique (h : d.Offenders nodeIds edgeIds rule)
    (h' : d.Offenders nodeIds' edgeIds' rule) : nodeIds = nodeIds' ∧ edgeIds = edgeIds' := by
  cases rule with
  | entryCount =>
    obtain ⟨hnodes, rfl⟩ := h
    obtain ⟨hnodes', rfl⟩ := h'
    refine ⟨?_, rfl⟩
    rcases hnodes with ⟨hsome, hnodes⟩ | ⟨hnone, rfl⟩ <;>
      rcases hnodes' with ⟨hsome', hnodes'⟩ | ⟨hnone', rfl⟩
    · exact hnodes.unique hnodes'
    · exact absurd hsome hnone'
    · exact absurd hsome' hnone
    · rfl
  | unreachable => exact ⟨h.1.unique h'.1, h.2.trans h'.2.symm⟩
  | cycle =>
    refine ⟨h.1.1.eq_of_mem_iff h'.1.1 fun id => ?_, h.2.unique h'.2⟩
    exact (h.1.2 id).trans (h'.1.2 id).symm
  | _ => exact ⟨h.1.unique h'.1, h.2.unique h'.2⟩

/-- A result that is a report of the first broken rule if it is a report at all. -/
def Reports (d : Document) (outcome : Except Violation α) : Prop :=
  ∀ v, outcome = .error v → d.FirstBroken v.rule ∧ d.Offenders v.nodeIds v.edgeIds v.rule

/-- A check for the next rule, and what is checked if it passes. -/
theorem Checks.reports {check : Except Violation α} {next : α → Except Violation β}
    (hcheck : d.Checks rule check) (hkept : ∀ r ∈ earlier, d.Keeps r)
    (hall : Rule.all = earlier ++ rule :: later)
    (hnext : ∀ a, check = .ok a → (∀ r ∈ earlier ++ [rule], d.Keeps r) → d.Reports (next a)) :
    d.Reports (check >>= next) := by
  cases hc : check with
  | error v =>
    intro v' hv
    obtain rfl : v = v' := Except.error.inj hv
    obtain ⟨hrule, hbroken, hoff⟩ := hcheck.refused v hc
    rw [hrule]
    exact ⟨⟨earlier, later, hall, hkept, hbroken⟩, hoff⟩
  | ok a =>
    refine hnext a hc fun r hr => ?_
    rcases List.mem_append.1 hr with hr | hr
    · exact hkept r hr
    · exact List.mem_singleton.1 hr ▸ hcheck.passed a hc

theorem reports_validate (d : Document) : d.Reports d.validate := by
  have hnone : ∀ r ∈ ([] : List Rule), d.Keeps r := fun _ h => nomatch h
  unfold validate
  refine (checks_ids d).reports hnone rfl fun _ _ hkept => ?_
  have hids : d.Keeps .duplicateId := hkept _ (by simp)
  refine (checks_ends d).reports hkept rfl fun _ _ hkept => ?_
  have hends : d.Keeps .danglingEdge := hkept _ (by simp)
  refine (checks_entry hids).reports hkept rfl fun entry hentry hkept => ?_
  have hstart : ∀ n, d.IsEntry n ↔ n = entry :=
    (entries_eq_singleton_iff hids.1).1 (checkEntry_eq_ok_iff.1 hentry)
  refine (checks_goals d).reports hkept rfl fun _ _ hkept => ?_
  refine (checks_several d).reports hkept rfl fun _ _ hkept => ?_
  refine (checks_branches d).reports hkept rfl fun _ _ hkept => ?_
  refine (checks_reached hstart).reports hkept rfl fun _ _ hkept => ?_
  refine (checks_cycles hids hends).reports hkept rfl fun _ _ hkept => ?_
  exact (checks_loops hids).reports hkept rfl fun _ _ _ _ h => nomatch h

/-- A flow that passes the checks keeps all rules. -/
theorem keeps_of_validate {entry : Node} (h : d.validate = .ok entry) (rule : Rule) :
    d.Keeps rule := by
  obtain ⟨hids, hends, hentry, hgoals, hseveral, hbranches, hreached, hcycles, hloops⟩ :=
    validate_eq_ok_iff.1 h
  have hkeeps : d.Keeps .duplicateId := (checks_ids d).passed _ hids
  cases rule with
  | duplicateId => exact hkeeps
  | danglingEdge => exact (checks_ends d).passed _ hends
  | entryCount => exact (checks_entry hkeeps).passed _ hentry
  | goalHasOutgoing => exact (checks_goals d).passed _ hgoals
  | tooManyOutgoing => exact (checks_several d).passed _ hseveral
  | conditionBranches => exact (checks_branches d).passed _ hbranches
  | unreachable =>
    have hstart : ∀ n, d.IsEntry n ↔ n = entry :=
      (entries_eq_singleton_iff hkeeps.1).1 (checkEntry_eq_ok_iff.1 hentry)
    exact (checks_reached hstart).passed _ hreached
  | cycle => exact (checks_cycles hkeeps ((checks_ends d).passed _ hends)).passed _ hcycles
  | unboundedLoop => exact (checks_loops hkeeps).passed _ hloops

/-- **The report of a broken rule.** A flow is refused with a report exactly when the rule of the report
is the first one that the flow breaks, and its lists are the offenders against this rule. -/
theorem validate_eq_error_iff (d : Document) (v : Violation) :
    d.validate = .error v ↔ d.FirstBroken v.rule ∧ d.Offenders v.nodeIds v.edgeIds v.rule := by
  constructor
  · exact reports_validate d v
  · rintro ⟨hfirst, hoff⟩
    cases hv : d.validate with
    | ok entry =>
      obtain ⟨-, -, -, -, hbroken⟩ := hfirst
      exact absurd (keeps_of_validate hv v.rule) hbroken
    | error v' =>
      obtain ⟨hfirst', hoff'⟩ := reports_validate d v' hv
      obtain ⟨rule, nodeIds, edgeIds⟩ := v
      obtain ⟨rule', nodeIds', edgeIds'⟩ := v'
      obtain rfl : rule' = rule := hfirst'.unique hfirst
      obtain ⟨rfl, rfl⟩ := hoff'.unique hoff
      rfl

end Report

example : Document.validate ⟨[⟨"intro", .email ⟨none, "Hello", "Hello"⟩⟩],
    [{ id := "a", source := "intro", target := "lost" },
      { id := "b", source := "gone", target := "lost" }]⟩ =
    .error ⟨.danglingEdge, ["lost", "gone"], ["a", "b"]⟩ := by decide +kernel

end Document

end MailCampaign
