import MailCampaign.Proofs.Flow.Loops

/-!
# The rules are legality

`Legal` says what a flow has to be in terms of its steps, edges, walks and cycles alone, without the
checks. Each check passes exactly when its part of that holds, and so a flow passes them all exactly
when it is legal (`validate_eq_ok_iff_legal`). The checks before one matter to it: only when ids are
distinct is the step that is found under the source of an edge the one that the edge leaves.
-/

namespace MailCampaign

namespace Document

/-- A step has the id. -/
def Names (d : Document) (id : String) : Prop := ∃ n ∈ d.nodes, n.id = id

/-- An edge leaves a condition on its `no` branch. -/
def LeavesOnNo (d : Document) (e : Edge) (k : Condition) : Prop :=
  (∃ n ∈ d.nodes, n.id = e.source ∧ n.action = .condition k) ∧ e.branch = .no

/-- A flow that keeps the rules, with the step where it starts. -/
structure Legal (d : Document) (entry : Node) : Prop where
  nodeIds : (d.nodes.map Node.id).Nodup
  edgeIds : (d.edges.map Edge.id).Nodup
  /-- Edges join steps. -/
  ends : ∀ e ∈ d.edges, d.Names e.source ∧ d.Names e.target
  /-- The entry is the one step that no edge leads to. -/
  start : ∀ n, (n ∈ d.nodes ∧ ∀ e ∈ d.edges, e.target ≠ n.id) ↔ n = entry
  goals : ∀ n ∈ d.nodes, n.IsGoal → d.outgoing n = []
  several : ∀ n ∈ d.nodes, n.Mails ∨ n.Delays → (d.outgoing n).length ≤ 1
  /-- A condition has two edges out of it, one for each answer. -/
  branches : ∀ n ∈ d.nodes, ∀ k, n.action = .condition k →
    ∃ yes no : Edge, yes.branch = .yes ∧ no.branch = .no ∧ (d.outgoing n).Perm [yes, no]
  reached : ∀ n ∈ d.nodes, ∃ l, Walk d.edges entry.id l n.id
  /-- Every cycle leaves some condition on its `no` branch. -/
  cycles : ∀ l, Cycle d.edges l → ∃ e ∈ l, ∃ k, d.LeavesOnNo e k
  /-- A condition that a cycle leaves on its `no` branch waits. -/
  loops : ∀ l, Cycle d.edges l → ∀ e ∈ l, ∀ k, d.LeavesOnNo e k → k.wait.isZero = false

variable {d : Document} {entry n : Node} {id : String} {e : Edge} {k : Condition}

/-! ## Ids and ends -/

theorem repeatsAfter_eq_nil_iff {seen ids : List String} :
    repeatsAfter seen ids = [] ↔ ids.Nodup ∧ ∀ id ∈ ids, id ∉ seen := by
  refine ⟨repeatsAfter_eq_nil, fun h => ?_⟩
  induction ids generalizing seen with
  | nil => rfl
  | cons id rest ih =>
    obtain ⟨hnodup, hnew⟩ := h
    obtain ⟨hid, hrest⟩ := List.nodup_cons.1 hnodup
    unfold repeatsAfter
    rw [if_neg fun hs => hnew id List.mem_cons_self (List.contains_iff_mem.1 hs)]
    refine ih ⟨hrest, fun id' hmem hseen => ?_⟩
    rcases List.mem_cons.1 hseen with rfl | hseen
    · exact hid hmem
    · exact hnew id' (List.mem_cons_of_mem _ hmem) hseen

theorem repeats_eq_nil_iff {ids : List String} : repeats ids = [] ↔ ids.Nodup := by
  unfold repeats
  rw [repeatsAfter_eq_nil_iff, and_iff_left fun _ _ => List.not_mem_nil]

theorem checkIds_eq_ok_iff :
    d.checkIds = .ok ⟨⟩ ↔ (d.nodes.map Node.id).Nodup ∧ (d.edges.map Edge.id).Nodup := by
  unfold checkIds
  rw [accuse_eq_ok_iff, repeats_eq_nil_iff, repeats_eq_nil_iff]

/-- A step is found under an id exactly when a step has it. -/
theorem names_iff : d.Names id ↔ (d.node? id).isSome = true := by
  unfold Names node?
  rw [List.find?_isSome]
  exact exists_congr fun n => and_congr_right fun _ => beq_iff_eq.symm

theorem missingEnds_eq_nil_iff :
    d.missingEnds e = [] ↔ d.Names e.source ∧ d.Names e.target := by
  unfold missingEnds
  rw [List.filter_eq_nil_iff, List.forall_mem_cons, List.forall_mem_singleton, names_iff, names_iff,
    Bool.not_eq_true, Bool.not_eq_true, Option.isNone_eq_false_iff, Option.isNone_eq_false_iff]

theorem checkEnds_eq_ok_iff :
    d.checkEnds = .ok ⟨⟩ ↔ ∀ e ∈ d.edges, d.Names e.source ∧ d.Names e.target := by
  unfold checkEnds
  rw [accuse_eq_ok_iff, List.map_eq_nil_iff, List.filter_eq_nil_iff]
  have hends : ∀ e, (¬ (!(d.missingEnds e).isEmpty) = true) ↔ d.missingEnds e = [] := by simp
  simp only [hends]
  constructor
  · exact fun h e he => missingEnds_eq_nil_iff.1 (h.2 e he)
  · intro h
    have hnone : ∀ e ∈ d.edges, d.missingEnds e = [] := fun e he => missingEnds_eq_nil_iff.2 (h e he)
    refine ⟨?_, hnone⟩
    rw [List.flatMap_eq_nil_iff.2 hnone]
    rfl

/-! ## Entry and reach -/

theorem mem_entries : n ∈ d.entries ↔ n ∈ d.nodes ∧ ∀ e ∈ d.edges, e.target ≠ n.id := by
  unfold entries
  simp [List.mem_filter]

/-- When ids are distinct, one step is found that no edge leads to exactly when there is one. -/
theorem entries_eq_singleton_iff (hids : (d.nodes.map Node.id).Nodup) :
    d.entries = [entry] ↔
      ∀ n, (n ∈ d.nodes ∧ ∀ e ∈ d.edges, e.target ≠ n.id) ↔ n = entry := by
  have hnodup : d.entries.Nodup := (List.Nodup.of_map _ hids).filter _
  simp only [← mem_entries]
  constructor
  · intro h n
    rw [h, List.mem_singleton]
  · intro h
    have hperm : d.entries.Perm [entry] :=
      (List.perm_ext_iff_of_nodup hnodup (List.nodup_singleton _)).2 fun n => by
        rw [h n, List.mem_singleton]
    exact List.perm_singleton.1 hperm

theorem checkReached_eq_ok_iff :
    d.checkReached entry = .ok ⟨⟩ ↔ ∀ n ∈ d.nodes, ∃ l, Walk d.edges entry.id l n.id := by
  unfold checkReached
  rw [accuse_eq_ok_iff, and_iff_left rfl, List.map_eq_nil_iff, List.filter_eq_nil_iff]
  refine forall₂_congr fun n _ => ?_
  rw [Bool.not_eq_true, Bool.not_eq_false', List.contains_iff_mem, mem_reachableFrom,
    ← path_iff_walk]
  simp

/-! ## Exits -/

theorem checkExits_eq_ok_iff {rule : Rule} {breaks : Node → Bool} :
    d.checkExits rule breaks = .ok ⟨⟩ ↔ ∀ n ∈ d.nodes, breaks n = false := by
  unfold checkExits
  rw [accuse_eq_ok_iff, List.map_eq_nil_iff]
  constructor
  · exact fun h n hn => Bool.eq_false_iff.2 (List.filter_eq_nil_iff.1 h.1 n hn)
  · intro h
    have hnone : d.nodes.filter breaks = [] :=
      List.filter_eq_nil_iff.2 fun n hn => Bool.eq_false_iff.1 (h n hn)
    rw [hnone]
    exact ⟨rfl, rfl⟩

theorem goalWithExit_eq_false_iff : d.goalWithExit n = false ↔ n.IsGoal → d.outgoing n = [] := by
  unfold goalWithExit Node.IsGoal
  cases n.action <;> simp

theorem severalExits_eq_false_iff :
    d.severalExits n = false ↔ n.Mails ∨ n.Delays → (d.outgoing n).length ≤ 1 := by
  unfold severalExits Node.Mails Node.Delays
  cases n.action <;> simp

/-- Two edges, one of each branch, are counted as such. -/
theorem perm_yes_no_iff {out : List Edge} :
    (out.length = 2 ∧ (out.filter fun e => e.branch == .yes).length = 1 ∧
      (out.filter fun e => e.branch == .no).length = 1) ↔
      ∃ yes no : Edge, yes.branch = .yes ∧ no.branch = .no ∧ out.Perm [yes, no] := by
  constructor
  · rintro ⟨htwo, hyes, hno⟩
    obtain ⟨a, b, rfl⟩ := List.length_eq_two.1 htwo
    cases ha : a.branch <;> cases hb : b.branch <;> simp [ha, hb] at hyes hno
    · exact ⟨a, b, ha, hb, .refl _⟩
    · exact ⟨b, a, hb, ha, .swap _ _ _⟩
  · rintro ⟨yes, no, hyes, hno, hperm⟩
    refine ⟨hperm.length_eq, ?_, ?_⟩
    · rw [(hperm.filter _).length_eq]
      simp [hyes, hno]
    · rw [(hperm.filter _).length_eq]
      simp [hyes, hno]

theorem unclearBranches_eq_false_iff :
    d.unclearBranches n = false ↔ ∀ k, n.action = .condition k →
      ∃ yes no : Edge, yes.branch = .yes ∧ no.branch = .no ∧ (d.outgoing n).Perm [yes, no] := by
  unfold unclearBranches
  rw [← perm_yes_no_iff]
  cases n.action <;> simp [and_assoc]

/-! ## Cycles -/

/-- The condition that an edge leaves on its `no` branch is found when ids are distinct. -/
theorem timeoutCondition?_eq_some_iff (hids : (d.nodes.map Node.id).Nodup) :
    d.timeoutCondition? e = some k ↔ d.LeavesOnNo e k := by
  unfold timeoutCondition? LeavesOnNo
  constructor
  · intro h
    split at h
    · next k' hk =>
      obtain ⟨n, hn, ha⟩ := Option.map_eq_some_iff.1 hk
      split at h
      · next hno => exact ⟨⟨n, mem_of_node? hn, id_of_node? hn, Option.some.inj h ▸ ha⟩, hno⟩
      · cases h
    · cases h
  · rintro ⟨⟨n, hn, hid, ha⟩, hno⟩
    have hfind : d.node? e.source = some n := hid ▸ node?_of_mem hids hn
    simp [hfind, ha, hno]

theorem mem_promptEdges (hids : (d.nodes.map Node.id).Nodup) :
    e ∈ d.promptEdges ↔ e ∈ d.edges ∧ ∀ k, ¬ d.LeavesOnNo e k := by
  simp [promptEdges, Option.eq_none_iff_forall_ne_some, timeoutCondition?_eq_some_iff hids]

theorem mem_hastyEdges (hids : (d.nodes.map Node.id).Nodup) :
    e ∈ d.hastyEdges ↔
      (e ∈ d.edges ∧ onCycle d.edges e = true) ∧ ∃ k, d.LeavesOnNo e k ∧ k.wait.isZero = true := by
  simp only [← timeoutCondition?_eq_some_iff hids]
  unfold hastyEdges
  rw [List.mem_filter]
  cases d.timeoutCondition? e with
  | none => simp
  | some k => simp [and_assoc, and_left_comm, and_comm]

/-- Prompt edges make no cycle exactly when every cycle leaves some condition on `no`. -/
theorem cyclingEdges_eq_nil_iff (hids : (d.nodes.map Node.id).Nodup) :
    d.cyclingEdges = [] ↔ ∀ l, Cycle d.edges l → ∃ e ∈ l, ∃ k, d.LeavesOnNo e k := by
  unfold cyclingEdges
  rw [← no_cycle_iff]
  constructor
  · intro h l hl
    by_contra hnone
    push Not at hnone
    exact h l (hl.of_mem fun e he => (mem_promptEdges hids).2 ⟨(hl.path he).1, hnone e he⟩)
  · intro h l hl
    obtain ⟨e, he, k, hk⟩ := h l (hl.of_mem fun e he => ((mem_promptEdges hids).1 (hl.path he).1).1)
    exact ((mem_promptEdges hids).1 (hl.path he).1).2 k hk

/-- No edge is hasty exactly when the conditions that cycles leave on `no` wait. -/
theorem hastyEdges_eq_nil_iff (hids : (d.nodes.map Node.id).Nodup) :
    d.hastyEdges = [] ↔
      ∀ l, Cycle d.edges l → ∀ e ∈ l, ∀ k, d.LeavesOnNo e k → k.wait.isZero = false := by
  rw [List.eq_nil_iff_forall_not_mem]
  simp only [mem_hastyEdges hids, ← mem_cycle_iff]
  constructor
  · intro h l hl e he k hk
    exact Bool.eq_false_iff.2 fun hz => h e ⟨⟨l, hl, he⟩, k, hk, hz⟩
  · rintro h e ⟨⟨l, hl, he⟩, k, hk, hz⟩
    rw [h l hl e he k hk] at hz
    cases hz

/-! ## All rules -/

/-- A flow that passes the checks is legal. -/
theorem legal_of_validate (h : d.validate = .ok entry) : d.Legal entry := by
  rw [validate_eq_ok_iff, checkIds_eq_ok_iff, checkEnds_eq_ok_iff, checkEntry_eq_ok_iff,
    checkExits_eq_ok_iff, checkExits_eq_ok_iff, checkExits_eq_ok_iff, checkReached_eq_ok_iff,
    checkCycles_eq_ok_iff, checkLoops_eq_ok_iff] at h
  obtain ⟨⟨hnodes, hedges⟩, hends, hentry, hgoals, hseveral, hbranches, hreached, hcycles, hloops⟩ := h
  exact {
    nodeIds := hnodes
    edgeIds := hedges
    ends := hends
    start := (entries_eq_singleton_iff hnodes).1 hentry
    goals := fun n hn => goalWithExit_eq_false_iff.1 (hgoals n hn)
    several := fun n hn => severalExits_eq_false_iff.1 (hseveral n hn)
    branches := fun n hn => unclearBranches_eq_false_iff.1 (hbranches n hn)
    reached := hreached
    cycles := (cyclingEdges_eq_nil_iff hnodes).1 hcycles
    loops := (hastyEdges_eq_nil_iff hnodes).1 hloops }

/-- A legal flow passes the checks. -/
theorem validate_of_legal (h : d.Legal entry) : d.validate = .ok entry := by
  rw [validate_eq_ok_iff, checkIds_eq_ok_iff, checkEnds_eq_ok_iff, checkEntry_eq_ok_iff,
    checkExits_eq_ok_iff, checkExits_eq_ok_iff, checkExits_eq_ok_iff, checkReached_eq_ok_iff,
    checkCycles_eq_ok_iff, checkLoops_eq_ok_iff]
  exact ⟨⟨h.nodeIds, h.edgeIds⟩, h.ends, (entries_eq_singleton_iff h.nodeIds).2 h.start,
    fun n hn => goalWithExit_eq_false_iff.2 (h.goals n hn),
    fun n hn => severalExits_eq_false_iff.2 (h.several n hn),
    fun n hn => unclearBranches_eq_false_iff.2 (h.branches n hn), h.reached,
    (cyclingEdges_eq_nil_iff h.nodeIds).2 h.cycles, (hastyEdges_eq_nil_iff h.nodeIds).2 h.loops⟩

/-- **The rules are legality.** A flow passes the checks, with an entry, exactly when it is legal with
that entry. -/
theorem validate_eq_ok_iff_legal (d : Document) (entry : Node) :
    d.validate = .ok entry ↔ d.Legal entry := ⟨legal_of_validate, validate_of_legal⟩

end Document

/-- The flow of a graph is legal. -/
theorem Graph.lawful_flow (g : Graph) : g.definition.document.Legal g.entry :=
  Document.legal_of_validate g.legal

end MailCampaign
