import MailCampaign.Flow.Graph
import Mathlib.Data.List.Nodup

/-!
# What the rules give

A legal flow has passed every rule, so nothing offends against any of them. These are the
consequences that the movement of cursors relies on: ids name steps, the entry is a step, and neither
list of edges that would make a loop endless has an edge. Before them stand the kinds of steps and of
ways from step to step that the movement of cursors is described with.
-/

namespace MailCampaign

/-! ## Steps and ways -/

/-- A step that sends a mail. -/
def Node.Mails (n : Node) : Prop := ∃ mail, n.action = .email mail

/-- A step that takes a delay. -/
def Node.Delays (n : Node) : Prop := ∃ wait, n.action = .delay wait

/-- A step that is a goal. -/
def Node.IsGoal (n : Node) : Prop := ∃ goal, n.action = .goal goal

/-- A step that a cursor may leave as it comes to it. -/
def Node.Prompt (n : Node) : Prop := n.Mails ∨ ∃ k, n.action = .condition k ∧ k.wait.isZero = true

/-- An edge leads from one step to another. -/
def Graph.Joins (g : Graph) (a b : String) : Prop :=
  ∃ branch next, g.next? a branch = some next ∧ next.id = b

/-- An edge leads from a prompt step to another. -/
def Graph.AtOnce (g : Graph) (a b : String) : Prop :=
  ∃ node, g.node? a = some node ∧ node.Prompt ∧ g.Joins a b

/-! ## Rules -/

theorem bind_eq_ok_iff {ε α β : Type} {x : Except ε α} {f : α → Except ε β} {b : β} :
    (x >>= f) = .ok b ↔ ∃ a, x = .ok a ∧ f a = .ok b := by
  cases x with
  | error e => exact ⟨nofun, fun ⟨a, h, _⟩ => nomatch h⟩
  | ok a => exact ⟨fun h => ⟨a, rfl, h⟩, fun ⟨a', h, h'⟩ => by cases h; exact h'⟩

namespace Document

variable {d : Document} {entry : Node}

/-- A rule passes exactly when nothing offends. -/
theorem accuse_eq_ok_iff {rule : Rule} {nodeIds edgeIds : List String} {u : Unit} :
    accuse rule nodeIds edgeIds = .ok u ↔ nodeIds = [] ∧ edgeIds = [] := by
  unfold accuse
  split
  · next h => exact ⟨fun _ => h, fun _ => rfl⟩
  · next h => exact ⟨nofun, fun h' => absurd h' h⟩

theorem repeatsAfter_eq_nil {seen ids : List String} (h : repeatsAfter seen ids = []) :
    ids.Nodup ∧ ∀ id ∈ ids, id ∉ seen := by
  induction ids generalizing seen with
  | nil => exact ⟨List.nodup_nil, fun id hid => absurd hid List.not_mem_nil⟩
  | cons id rest ih =>
    unfold repeatsAfter at h
    split at h
    · cases h
    · next hs =>
      obtain ⟨hn, hrest⟩ := ih h
      have hid : id ∉ rest := fun hm => hrest id hm List.mem_cons_self
      refine ⟨List.nodup_cons.2 ⟨hid, hn⟩, fun id' hm hseen => ?_⟩
      rcases List.mem_cons.1 hm with rfl | hm
      · exact hs (List.contains_iff_mem.2 hseen)
      · exact hrest id' hm (List.mem_cons_of_mem _ hseen)

/-- A step is found under its id when ids are distinct. -/
theorem node?_of_mem {n : Node} (hd : (d.nodes.map Node.id).Nodup) (hn : n ∈ d.nodes) :
    d.node? n.id = some n := by
  cases hf : d.node? n.id with
  | none =>
    have := List.find?_eq_none.1 hf n hn
    simp at this
  | some m =>
    have hm := mem_of_node? hf
    have hid := id_of_node? hf
    rw [List.inj_on_of_nodup_map hd hm hn hid]

/-- What a legal flow is known by. -/
structure Lawful (d : Document) (entry : Node) : Prop where
  ids : (d.nodes.map Node.id).Nodup
  entry : entry ∈ d.nodes
  cycles : d.cyclingEdges = []
  loops : d.hastyEdges = []

/-- A flow passes when it passes every check, and the entry is the one that was found. -/
theorem validate_eq_ok_iff : d.validate = .ok entry ↔
    d.checkIds = .ok ⟨⟩ ∧ d.checkEnds = .ok ⟨⟩ ∧ d.checkEntry = .ok entry ∧
      d.checkExits .goalHasOutgoing d.goalWithExit = .ok ⟨⟩ ∧
      d.checkExits .tooManyOutgoing d.severalExits = .ok ⟨⟩ ∧
      d.checkExits .conditionBranches d.unclearBranches = .ok ⟨⟩ ∧
      d.checkReached entry = .ok ⟨⟩ ∧ d.checkCycles = .ok ⟨⟩ ∧ d.checkLoops = .ok ⟨⟩ := by
  unfold validate
  simp only [bind_eq_ok_iff]
  constructor
  · rintro ⟨_, hids, _, hends, n, hentry, _, hgoals, _, hseveral, _, hbranches, _, hreached, _,
      hcycles, _, hloops, h⟩
    injection h with h
    subst h
    exact ⟨hids, hends, hentry, hgoals, hseveral, hbranches, hreached, hcycles, hloops⟩
  · rintro ⟨hids, hends, hentry, hgoals, hseveral, hbranches, hreached, hcycles, hloops⟩
    exact ⟨_, hids, _, hends, _, hentry, _, hgoals, _, hseveral, _, hbranches, _, hreached, _,
      hcycles, _, hloops, rfl⟩

/-- The entry is the one step that no edge leads to. -/
theorem checkEntry_eq_ok_iff : d.checkEntry = .ok entry ↔ d.entries = [entry] := by
  unfold checkEntry
  split
  · next n hn => rw [hn, List.cons.injEq, Except.ok.injEq, and_iff_left rfl]
  · next hnone => rw [hnone]; exact ⟨nofun, nofun⟩
  · next hmany _ => exact ⟨nofun, fun h => absurd h (hmany entry)⟩

theorem checkCycles_eq_ok_iff : d.checkCycles = .ok ⟨⟩ ↔ d.cyclingEdges = [] := by
  unfold checkCycles
  rw [accuse_eq_ok_iff]
  refine ⟨fun h => List.map_eq_nil_iff.1 h.2, fun h => ?_⟩
  simp [h]

theorem checkLoops_eq_ok_iff : d.checkLoops = .ok ⟨⟩ ↔ d.hastyEdges = [] := by
  unfold checkLoops
  rw [accuse_eq_ok_iff, List.map_eq_nil_iff, List.map_eq_nil_iff, and_self]

theorem lawful_of_validate (h : d.validate = .ok entry) : d.Lawful entry := by
  obtain ⟨hids, -, hentry, -, -, -, -, hcycles, hloops⟩ := validate_eq_ok_iff.1 h
  refine ⟨(repeatsAfter_eq_nil (accuse_eq_ok_iff.1 hids).1).1, ?_,
    checkCycles_eq_ok_iff.1 hcycles, checkLoops_eq_ok_iff.1 hloops⟩
  have hmem : entry ∈ d.entries :=
    checkEntry_eq_ok_iff.1 hentry ▸ List.mem_singleton_self entry
  exact (List.mem_filter.1 hmem).1

end Document

namespace Graph

theorem lawful (g : Graph) : g.definition.document.Lawful g.entry :=
  Document.lawful_of_validate g.legal

/-- The entry is a step of its flow. -/
theorem node?_entry (g : Graph) : g.node? g.entry.id = some g.entry :=
  Document.node?_of_mem g.lawful.ids g.lawful.entry

end Graph

/-- A mail, a condition on a reply within two days, and a reminder that leads back to it. -/
def Document.followUp : Document where
  nodes := [⟨"intro", .email ⟨none, "Hello", "Hello"⟩⟩,
    ⟨"replied", .condition ⟨{ replied := true }, .anyOf, ⟨2, .days⟩⟩⟩,
    ⟨"reminder", .email ⟨none, "Hello again", "Hello again"⟩⟩,
    ⟨"won", .goal ⟨.reply, none⟩⟩]
  edges := [{ id := "a", source := "intro", target := "replied" },
    { id := "b", source := "replied", sourceHandle := some "yes", target := "won" },
    { id := "c", source := "replied", sourceHandle := some "no", target := "reminder" },
    { id := "d", source := "reminder", target := "replied" }]

example : Document.followUp.validate = .ok ⟨"intro", .email ⟨none, "Hello", "Hello"⟩⟩ := by
  decide +kernel

end MailCampaign
