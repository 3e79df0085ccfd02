import MailCampaign.Proofs.Cursor.Walk
import MailCampaign.Proofs.Engine.Window
import MailCampaign.Proofs.Flow.Arena
import MailCampaign.Proofs.Run.Lineage

/-!
# Graphs are their documents

Once a document has passed the rules, its graph says what the document says, and so do the tables that
it is laid out in (`Proofs/Flow/Arena.lean`): which step is the entry, which one has an id, and where
each step leads.

1. Step by step, by what a step does, the edges out of it give what follows it
   (`Graph.next?_of_exits`, `Graph.onward`, `Graph.answered`, `Graph.next?_of_goal`).
2. Hence a cursor finds a step behind every answer of a condition, and only a mail or a delay with no
   edge out of it completes a cursor (`Cursor.Turn.completes`).
-/

namespace MailCampaign

namespace Graph

variable {g : Graph} {node : Node} {branch : Branch} {k : Condition}

/-- A graph whose lookups answer what a document says. -/
structure Depicts (g : Graph) (d : Document) : Prop where
  /-- The entry is the one step that no edge leads to. -/
  entry : ∀ n, (n ∈ d.nodes ∧ ∀ e ∈ d.edges, e.target ≠ n.id) ↔ n = g.entry
  /-- An id finds the step that has it. -/
  steps : ∀ id n, g.node? id = some n ↔ n ∈ d.nodes ∧ n.id = id
  /-- A condition has one edge for each answer, and a step at its end. -/
  answers : ∀ n ∈ d.nodes, ∀ k, n.action = .condition k → ∀ branch, branch ≠ .next →
    ∃ e, ((d.outgoing n).filter fun e => e.branch == branch) = [e] ∧
      ∃ next ∈ d.nodes, next.id = e.target ∧ g.next? n.id branch = some next
  /-- A mail or a delay leads over its only edge, whatever the labels of that are, or nowhere. -/
  onward : ∀ n ∈ d.nodes, n.Mails ∨ n.Delays →
    d.outgoing n = [] ∧ g.next? n.id .next = none ∨
    ∃ e, d.outgoing n = [e] ∧ ∃ next ∈ d.nodes, next.id = e.target ∧ g.next? n.id .next = some next
  /-- A goal leads nowhere. -/
  goals : ∀ n ∈ d.nodes, n.IsGoal → ∀ branch, g.next? n.id branch = none

/-- The one edge for a way to leave a step leads to the step at its end. -/
theorem next?_of_exits {id : String} {e : Edge} (he : g.exits id branch = [e]) :
    ∃ next ∈ g.definition.document.nodes, next.id = e.target ∧ g.next? id branch = some next := by
  have hexit : g.exit? id branch = some e := by rw [exit?_eq_head?, he, List.head?_cons]
  cases hn : g.next? id branch with
  | none =>
    rw [exits_eq_nil hn] at he
    cases he
  | some next =>
    obtain ⟨e', he', hnext⟩ := exists_exit?_of_next? hn
    obtain rfl : e = e' := Option.some.inj (hexit.symm.trans he')
    exact ⟨next, Document.mem_of_node? hnext, id_of_node? hnext, rfl⟩

/-- Nothing follows a step without edges. -/
theorem next?_of_outgoing_nil (h : g.definition.document.outgoing node = []) (branch : Branch) :
    g.next? node.id branch = none := by
  have hexits : g.exits node.id branch = [] := by
    unfold exits
    rw [show edgesFrom g.definition.document.edges node.id = [] from h]
    rfl
  rw [next?, exit?_eq_head?, hexits]
  rfl

/-- **A graph says what its document says.** -/
theorem depicts (g : Graph) : g.Depicts g.definition.document where
  entry := g.lawful_flow.start
  steps id n := by
    constructor
    · exact fun h => ⟨Document.mem_of_node? h, id_of_node? h⟩
    · rintro ⟨hn, rfl⟩
      exact Document.node?_of_mem g.lawful_flow.nodeIds hn
  answers n hn k ha branch hb := by
    have hone := length_exits_answer (Document.node?_of_mem g.lawful_flow.nodeIds hn) ha hb
    obtain ⟨e, he⟩ := List.length_eq_one_iff.1 hone
    exact ⟨e, (exits_answer g n hb).symm.trans he, next?_of_exits he⟩
  onward n hn hleft := by
    have hshort := g.lawful_flow.several n hn hleft
    cases hout : g.definition.document.outgoing n with
    | nil => exact .inl ⟨rfl, next?_of_outgoing_nil hout .next⟩
    | cons e rest =>
      rw [hout] at hshort
      obtain rfl : rest = [] :=
        List.eq_nil_of_length_eq_zero (Nat.le_zero.1 (Nat.le_of_succ_le_succ hshort))
      exact .inr ⟨e, rfl, next?_of_exits ((exits_next g n).trans hout)⟩
  goals n hn hgoal := next?_of_outgoing_nil (g.lawful_flow.goals n hn hgoal)

end Graph

/-! ## Cursors that complete their flow -/

namespace Cursor

variable {policy : RetryPolicy} {flows : FlowStore} {c d : Cursor} {g : Graph} {node : Node}
  {branch : Branch} {outcome : String} {now : Instant}

/-- A cursor that leaves a step for good was at a mail or a delay without an edge. -/
theorem Leaves.at_end (h : c.Leaves node now branch outcome) (hn : g.node? c.nodeId = some node)
    (hnone : g.next? node.id branch = none) :
    (node.Mails ∨ node.Delays) ∧ g.definition.document.outgoing node = [] := by
  cases h with
  | @sent mail ha _ =>
    exact ⟨.inl ⟨mail, ha⟩, (Graph.exits_next g node).symm.trans (Graph.exits_eq_nil hnone)⟩
  | @elapsed wait ha _ _ =>
    exact ⟨.inr ⟨wait, ha⟩, (Graph.exits_next g node).symm.trans (Graph.exits_eq_nil hnone)⟩
  | answered ha _ _ _ hv =>
    have hb : branch ≠ .next := Verdict.branch?_ne_next (Change.branch?_of_decisive hv)
    obtain ⟨next, hnext⟩ := Graph.next?_of_condition hn ha hb
    rw [hnone] at hnext
    cases hnext

/-- A turn completes a cursor only at a mail or a delay without an edge. -/
theorem Turn.completes (h : c.Turn policy flows d) (hg : flows.find? c.flowId = some g)
    (hd : d.state = .completed) :
    ∃ node, g.node? c.nodeId = some node ∧ (node.Mails ∨ node.Delays) ∧
      g.definition.document.outgoing node = [] := by
  cases h with
  | completed hat hleaves hnone _ =>
    obtain rfl := Option.some.inj (hg.symm.trans hat.version)
    exact ⟨_, hat.step, hleaves.at_end hat.step hnone⟩
  | noted _ _ hwaits => exact absurd (hwaits.symm.trans hd) nofun
  | _ => cases hd

end Cursor

/-- **A compiled graph is its definition.** A definition that passes the rules has a graph, which says
what its document says: the entry is the one step that no edge leads to, an id finds the step that has
it and nothing else, a condition leads over its `yes` and its `no` edge, a mail or a delay over its only
edge if it has one, and a goal nowhere. Laying the flow out in tables meets no missing or outlying
place, and the lookups in the tables have the same answers. So only mails and delays complete a cursor
of the version: at each turn that does, there is no edge out of the step, and in every world that
engines come to the completed cursors are at such steps. -/
theorem Graph.compile_exact {d : Definition} {entry : Node} (h : d.document.validate = .ok entry) :
    ∃ g, Graph.compile d = .ok g ∧ g.definition = d ∧ g.Depicts d.document ∧
      (∃ a, Arena.ofDocument d.document = some a ∧ a.InRange ∧ a.entry? = some g.entry ∧
        (∀ id, a.node? id = g.node? id) ∧ ∀ id branch, a.next? id branch = g.next? id branch) ∧
      (∀ policy flows (c c' : Cursor), c.Turn policy flows c' → flows.find? c.flowId = some g →
        c'.state = .completed → ∃ node, g.node? c.nodeId = some node ∧
          (node.Mails ∨ node.Delays) ∧ d.document.outgoing node = []) ∧
      ∀ base w : World, base.Lineage w → ∀ key c, w.cursors.find? key = some c →
        w.flows.find? c.flowId = some g → c.state = .completed →
        ∃ node, g.node? c.nodeId = some node ∧ (node.Mails ∨ node.Delays) := by
  let g : Graph := ⟨d, entry, h⟩
  obtain ⟨a, ha, hlays⟩ := g.lawful_flow.exists_arena
  refine ⟨g, Graph.compile_eq_ok_iff.2 ⟨rfl, h⟩, rfl, g.depicts, ⟨a, ha, hlays.inRange g.lawful_flow,
    hlays.entry?_eq, hlays.node?_eq g.lawful_flow, hlays.next?_eq⟩,
    fun policy flows c c' hturn hg hd => hturn.completes hg hd, ?_⟩
  intro base w hw key c hc hg hd
  obtain ⟨g', node, hat, hfits, -⟩ := (hw.known.sound key c hc).placed
  obtain rfl := Option.some.inj (hg.symm.trans hat.version)
  refine ⟨node, hat.step, ?_⟩
  unfold Cursor.Fits at hfits
  rwa [hd] at hfits

/-- The follow-up flow: it starts with the first mail, and behind the answers of its condition stand the
goal and the reminder. -/
theorem Graph.compile_exact_followUp :
    ∃ g a, Graph.compile ⟨.ofNat 0, .ofNat 1, 1, .followUp, .epoch⟩ = .ok g ∧
      Arena.ofDocument .followUp = some a ∧ a.InRange ∧ g.entry.id = "intro" ∧
      (g.next? "replied" .yes).map Node.id = some "won" ∧
      (a.next? "replied" .no).map Node.id = some "reminder" ∧ g.next? "won" .next = none := by
  have hvalid : Document.followUp.validate = .ok ⟨"intro", .email ⟨none, "Hello", "Hello"⟩⟩ := by
    decide +kernel
  obtain ⟨g, hg, hdef, hdepicts, ⟨a, ha, hrange, -, -, hnext⟩, -⟩ :=
    Graph.compile_exact (d := ⟨.ofNat 0, .ofNat 1, 1, .followUp, .epoch⟩) hvalid
  refine ⟨g, a, hg, ha, hrange, ?_, ?_, ?_, ?_⟩
  · rw [← (hdepicts.entry ⟨"intro", .email ⟨none, "Hello", "Hello"⟩⟩).1 (by decide +kernel)]
  · unfold Graph.next? Graph.exit? Graph.node?
    rw [hdef]
    decide +kernel
  · rw [hnext]
    unfold Graph.next? Graph.exit? Graph.node?
    rw [hdef]
    decide +kernel
  · exact hdepicts.goals ⟨"won", .goal ⟨.reply, none⟩⟩ (by decide +kernel) ⟨_, rfl⟩ .next

end MailCampaign
