import MailCampaign.Flow.Validity

/-!
# Legal flow versions

A definition whose flow is legal, with its entry. Cursors run on these alone, so whatever moves a
cursor may rely on the rules for flows.
-/

namespace MailCampaign

/-- A definition with a legal flow. -/
structure Graph where
  definition : Definition
  /-- The step where a lead starts. -/
  entry : Node
  legal : definition.document.validate = .ok entry

namespace Graph

/-- The graph of a definition, unless its flow breaks a rule. -/
def compile (d : Definition) : Except Violation Graph :=
  match h : d.document.validate with
  | .ok entry => .ok ⟨d, entry, h⟩
  | .error v => .error v

/-- The id of the version. -/
def id (g : Graph) : Uuid := g.definition.id

/-- The number of the version. -/
def version (g : Graph) : UInt32 := g.definition.version

/-- The campaign of the version. -/
def campaignId (g : Graph) : Uuid := g.definition.campaignId

def size (g : Graph) : Nat := g.definition.document.nodes.length

/-- The step of an id. -/
def node? (g : Graph) (id : String) : Option Node := g.definition.document.node? id

/-- The edge on which a step is left: on the way on, whichever edge there is. -/
def exit? (g : Graph) (id : String) (branch : Branch) : Option Edge :=
  g.definition.document.edges.find? fun e =>
    e.source == id && (branch == .next || e.branch == branch)

/-- The step that follows a step on a branch. -/
def next? (g : Graph) (id : String) (branch : Branch) : Option Node :=
  (g.exit? id branch).bind fun e => g.node? e.target

theorem id_of_node? {g : Graph} {id : String} {n : Node} (h : g.node? id = some n) : n.id = id :=
  Document.id_of_node? h

theorem mem_of_exit? {g : Graph} {id : String} {branch : Branch} {e : Edge}
    (h : g.exit? id branch = some e) : e ∈ g.definition.document.edges ∧ e.source = id := by
  refine ⟨List.mem_of_find?_eq_some h, ?_⟩
  have := List.find?_some h
  simp only [Bool.and_eq_true, beq_iff_eq] at this
  exact this.1

theorem exists_exit?_of_next? {g : Graph} {id : String} {branch : Branch} {n : Node}
    (h : g.next? id branch = some n) :
    ∃ e, g.exit? id branch = some e ∧ g.node? e.target = some n :=
  Option.bind_eq_some_iff.1 h

/-- What follows a step is a step. -/
theorem node?_of_next? {g : Graph} {id : String} {branch : Branch} {n : Node}
    (h : g.next? id branch = some n) : g.node? n.id = some n := by
  obtain ⟨e, -, hn⟩ := exists_exit?_of_next? h
  rw [id_of_node? hn]
  exact hn

theorem compile_eq_ok_iff {d : Definition} {g : Graph} :
    compile d = .ok g ↔ g.definition = d ∧ d.document.validate = .ok g.entry := by
  unfold compile
  split
  · next entry h =>
    constructor
    · intro e; injection e with e; subst e; exact ⟨rfl, h⟩
    · rintro ⟨rfl, h'⟩
      obtain ⟨gd, ge, gl⟩ := g
      simp only at h h' ⊢
      rw [h] at h'
      injection h' with h'
      subst h'; rfl
  · next v h =>
    constructor
    · intro e; cases e
    · rintro ⟨rfl, h'⟩
      rw [h] at h'; cases h'

theorem compile_definition (g : Graph) : compile g.definition = .ok g :=
  compile_eq_ok_iff.2 ⟨rfl, g.legal⟩

end Graph

end MailCampaign
