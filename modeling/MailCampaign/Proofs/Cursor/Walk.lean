import MailCampaign.Proofs.Cursor.Route

/-!
# Histories are walks

A line of history says where a cursor is after it and in which state (`Graph.after`): a line with which
the cursor leaves a step leads over the one edge that there is for it, other lines leave the cursor
where it is. A history tells a walk when it starts at the entry and each line is where the one before
led, in a state from which a cursor goes on.

1. In a legal flow there is one edge for each way to leave a step, or none at all after a mail or a
   delay (`Graph.after_left`, `Graph.after_over`).
2. A turn adds no line, or the one that says where the cursor is then and in which state
   (`Cursor.Turn.told`). So the history goes on telling a walk.
-/

namespace MailCampaign

namespace Graph

variable {g : Graph} {id : String} {branch : Branch} {node : Node}

/-- The edges on which a step is left. -/
def exits (g : Graph) (id : String) (branch : Branch) : List Edge :=
  (edgesFrom g.definition.document.edges id).filter fun e => branch == .next || e.branch == branch

/-- Over the one edge to the next step. -/
def across (g : Graph) (id : String) (branch : Branch) : Option (String × CursorState) :=
  match g.exits id branch with
  | [e] => some (e.target, .active)
  | _ => none

/-- Where a cursor is after a line of its history, and in which state. -/
def after (g : Graph) (s : Step) : Option (String × CursorState) :=
  match s.kind, s.outcome with
  | "email", "sent" | "delay", "delay_elapsed" =>
    if (g.exits s.nodeId .next).isEmpty then some (s.nodeId, .completed) else g.across s.nodeId .next
  | "email", "send_retry" | "delay", "delay_scheduled" => some (s.nodeId, .waitingDelay)
  | "condition", "condition_entered" => some (s.nodeId, .waitingCondition)
  | "condition", "yes" => g.across s.nodeId .yes
  | "condition", "no" => g.across s.nodeId .no
  | "goal", "goal_reached" => some (s.nodeId, .goalReached)
  | "cursor", outcome => some (s.nodeId, if outcome = "failed" then .failed else .canceled)
  | _, _ => none

/-- The lines of a history lead from the entry to a step, and to a state there. -/
inductive Walk (g : Graph) : List Step → String → CursorState → Prop
  | start : Walk g [] g.entry.id .pending
  | line {h : List Step} {s : Step} {state after : CursorState} {id : String} :
      Walk g h s.nodeId state → state.terminal = false → g.after s = some (id, after) →
      Walk g (h ++ [s]) id after

/-! ## Edges out of a step -/

/-- The edge that is taken is the first of those that there are. -/
theorem exit?_eq_head? (g : Graph) (id : String) (branch : Branch) :
    g.exit? id branch = (g.exits id branch).head? := by
  unfold exit? exits edgesFrom
  rw [List.filter_filter, List.head?_filter]
  exact congrArg (List.find? · _) (funext fun e => Bool.and_comm _ _)

/-- Over the one edge to a step that follows. -/
theorem across_of_next? {next : Node} (hone : (g.exits id branch).length ≤ 1)
    (hn : g.next? id branch = some next) : g.across id branch = some (next.id, .active) := by
  obtain ⟨e, he, hnext⟩ := exists_exit?_of_next? hn
  rw [exit?_eq_head?] at he
  unfold across
  cases hexits : g.exits id branch with
  | nil =>
    rw [hexits] at he
    cases he
  | cons e' rest =>
    rw [hexits] at he hone
    obtain rfl : e' = e := Option.some.inj he
    have hrest : rest.length ≤ 0 := Nat.le_of_succ_le_succ hone
    obtain rfl : rest = [] := List.eq_nil_of_length_eq_zero (Nat.le_zero.1 hrest)
    rw [id_of_node? hnext]

/-- There is a step at the end of each edge. -/
theorem exits_eq_nil (hn : g.next? id branch = none) : g.exits id branch = [] := by
  cases hexits : g.exits id branch with
  | nil => rfl
  | cons e rest =>
    have he : g.exit? id branch = some e := by rw [exit?_eq_head?, hexits, List.head?_cons]
    have htarget := (g.lawful_flow.ends e (mem_of_exit? he).1).2
    rw [Document.names_iff] at htarget
    obtain ⟨next, hnext⟩ := Option.isSome_iff_exists.1 htarget
    have hsome : g.next? id branch = some next := by
      unfold next?
      rw [he]
      exact hnext
    rw [hn] at hsome
    cases hsome

theorem exits_next (g : Graph) (node : Node) :
    g.exits node.id .next = g.definition.document.outgoing node :=
  List.filter_eq_self.2 fun _ _ => rfl

theorem exits_answer (g : Graph) (node : Node) (hb : branch ≠ .next) :
    g.exits node.id branch =
      (g.definition.document.outgoing node).filter fun e => e.branch == branch := by
  have hnext : (branch == .next) = false := beq_eq_false_iff_ne.2 hb
  unfold exits
  rw [hnext]
  rfl

/-- There is at most one edge for each way to leave a step. -/
theorem length_exits_next (hn : g.node? id = some node) (hleft : node.Mails ∨ node.Delays) :
    (g.exits id .next).length ≤ 1 := by
  obtain rfl := id_of_node? hn
  rw [exits_next]
  exact g.lawful_flow.several node (Document.mem_of_node? hn) hleft

theorem length_exits_answer {k : Condition} (hn : g.node? id = some node)
    (ha : node.action = .condition k) (hb : branch ≠ .next) : (g.exits id branch).length = 1 := by
  obtain rfl := id_of_node? hn
  obtain ⟨yes, no, hyes, hno, hperm⟩ :=
    g.lawful_flow.branches node (Document.mem_of_node? hn) k ha
  rw [exits_answer g node hb, (hperm.filter _).length_eq]
  cases branch with
  | yes => simp [hyes, hno]
  | no => simp [hyes, hno]
  | next => exact absurd rfl hb

/-! ## Walks -/

section Walk

variable {h before rest : List Step} {s t : Step} {state : CursorState}

/-- The last line of a walk says where it came to. -/
theorem Walk.last (hw : g.Walk (h ++ [s]) id state) :
    g.after s = some (id, state) ∧ ∃ a, g.Walk h s.nodeId a ∧ a.terminal = false := by
  generalize hl : h ++ [s] = l at hw
  cases hw with
  | start => exact absurd hl (List.append_ne_nil_of_right_ne_nil h (List.cons_ne_nil s []))
  | @line _ _ a _ _ hw ha hs =>
    obtain ⟨rfl, rfl⟩ := List.append_singleton_inj.1 hl
    exact ⟨hs, a, hw, ha⟩

/-- The first lines of a walk are a walk, and after them it goes on. -/
theorem Walk.first (hw : g.Walk (h ++ s :: rest) id state) :
    ∃ a, g.Walk h s.nodeId a ∧ a.terminal = false := by
  induction rest using List.reverseRecOn generalizing id state with
  | nil => exact hw.last.2
  | append_singleton rest t ih =>
    rw [← List.cons_append, ← List.append_assoc] at hw
    obtain ⟨-, a, hw, -⟩ := hw.last
    exact ih hw

/-- Each line is where the one before led, in a state from which a cursor goes on. -/
theorem Walk.next (hw : g.Walk (before ++ s :: t :: rest) id state) :
    ∃ a, g.after s = some (t.nodeId, a) ∧ a.terminal = false := by
  rw [List.append_cons] at hw
  obtain ⟨a, hw, ha⟩ := hw.first
  exact ⟨a, hw.last.1, ha⟩

theorem Walk.entry (hw : g.Walk (s :: rest) id state) : s.nodeId = g.entry.id := by
  obtain ⟨a, hw, -⟩ := Walk.first (h := []) hw
  generalize hl : ([] : List Step) = l at hw
  generalize hb : s.nodeId = b at hw
  cases hw with
  | start => rfl
  | @line h u => exact absurd hl.symm (List.append_ne_nil_of_right_ne_nil h (List.cons_ne_nil u []))

end Walk

end Graph

/-- A line that tells of the end of a cursor which no step brought about. -/
theorem Graph.after_cursor (g : Graph) {s : Step} (hs : s.kind = "cursor") :
    g.after s = some (s.nodeId, if s.outcome = "failed" then .failed else .canceled) := by
  obtain ⟨nodeId, kind, outcome, now⟩ := s
  obtain rfl : kind = "cursor" := hs
  rfl

/-! ## The history of a cursor -/

namespace Cursor

/-- What a change of a cursor tells in its history: nothing, or where the cursor is after it and in
which state. -/
inductive Tells (g : Graph) (c d : Cursor) : Prop
  | nothing : d.history = c.history → d.nodeId = c.nodeId → d.state = c.state → Tells g c d
  | line {s : Step} : d.history = c.history ++ [s] → s.nodeId = c.nodeId →
      c.state.terminal = false → g.after s = some (d.nodeId, d.state) → Tells g c d

variable {c d : Cursor} {flows : FlowStore} {policy : RetryPolicy} {g : Graph} {node next : Node}
  {now : Instant} {branch : Branch} {outcome : String}

/-- A cursor that leaves its step goes over the one edge for that. -/
theorem Leaves.after_moved (h : c.Leaves node now branch outcome) (hat : c.At flows g node)
    (hn : g.next? node.id branch = some next) :
    g.after ⟨c.nodeId, node.action.name, outcome, now⟩ = some (next.id, .active) := by
  rw [← hat.nodeId] at hn
  have hsome : ¬ (g.exits c.nodeId branch).isEmpty = true := by
    obtain ⟨e, he, -⟩ := Graph.exists_exit?_of_next? hn
    rw [Graph.exit?_eq_head?] at he
    rw [List.isEmpty_iff]
    exact List.ne_nil_of_mem (List.mem_of_head? he)
  cases h with
  | sent ha =>
    rw [ha]
    refine (if_neg hsome).trans ?_
    exact Graph.across_of_next? (Graph.length_exits_next hat.step (.inl ⟨_, ha⟩)) hn
  | elapsed ha =>
    rw [ha]
    refine (if_neg hsome).trans ?_
    exact Graph.across_of_next? (Graph.length_exits_next hat.step (.inr ⟨_, ha⟩)) hn
  | @answered k w cause branch ha _ _ _ hb =>
    rw [ha]
    have hv := Change.branch?_of_decisive hb
    have hone := Graph.length_exits_answer hat.step ha (Verdict.branch?_ne_next hv)
    have hacross := Graph.across_of_next? (Nat.le_of_eq hone) hn
    cases branch with
    | yes => exact hacross
    | no => exact hacross
    | next => exact absurd rfl (Verdict.branch?_ne_next hv)

/-- A cursor completes its flow when there is no edge out of its step. -/
theorem Leaves.after_completed (h : c.Leaves node now branch outcome) (hat : c.At flows g node)
    (hn : g.next? node.id branch = none) :
    g.after ⟨c.nodeId, node.action.name, outcome, now⟩ = some (c.nodeId, .completed) := by
  rw [← hat.nodeId] at hn
  have hnone := Graph.exits_eq_nil hn
  cases h with
  | sent ha =>
    rw [ha]
    exact if_pos (by rw [hnone]; rfl)
  | elapsed ha =>
    rw [ha]
    exact if_pos (by rw [hnone]; rfl)
  | @answered k w cause branch ha _ _ _ hb =>
    have hv := Change.branch?_of_decisive hb
    have hone := Graph.length_exits_answer hat.step ha (Verdict.branch?_ne_next hv)
    rw [hnone] at hone
    cases hone

theorem Turn.tells (h : c.Turn policy flows d) (hg : flows.find? c.flowId = some g) :
    c.Tells g d := by
  have hr := h.running
  cases h with
  | @moved g' node next branch outcome now hat hl hn =>
    obtain rfl : g' = g := Option.some.inj (hat.version.symm.trans hg)
    exact .line rfl rfl hr (hl.after_moved hat hn)
  | @completed g' node branch outcome now hat hl hn =>
    obtain rfl : g' = g := Option.some.inj (hat.version.symm.trans hg)
    exact .line rfl rfl hr (hl.after_completed hat hn)
  | delayed hat ha => exact .line rfl rfl hr (by rw [ha]; rfl)
  | retried hat ha => exact .line rfl rfl hr (by rw [ha]; rfl)
  | watched hat ha => exact .line rfl rfl hr (by rw [ha]; rfl)
  | noted => exact .nothing rfl rfl rfl
  | reached hat ha => exact .line rfl rfl hr (by rw [ha]; rfl)
  | failed reason now => exact .line rfl rfl hr (g.after_cursor rfl)

theorem tells_canceled (g : Graph) (reason : String) (now : Instant)
    (hr : c.state.terminal = false) : c.Tells g (Change.canceled reason now c) := by
  have hne : "canceled: " ++ reason ≠ "failed" := by
    simp only [ne_eq, ← String.toList_inj, String.toList_append]
    simp
  exact .line rfl rfl hr ((g.after_cursor rfl).trans (congrArg _ (by rw [if_neg hne]; rfl)))

theorem tells_counted (g : Graph) (e : Engagement) (c : Cursor) :
    c.Tells g (World.counted e c) := by
  rw [counted_eq]
  exact .nothing rfl rfl rfl

/-- The history goes on telling a walk. -/
theorem Tells.walk (h : c.Tells g d) (hw : g.Walk c.history c.nodeId c.state) :
    g.Walk d.history d.nodeId d.state := by
  cases h with
  | nothing hhistory hnode hstate =>
    rw [hhistory, hnode, hstate]
    exact hw
  | line hhistory hs hr hafter =>
    rw [hhistory]
    exact .line (hs ▸ hw) hr hafter

/-- The history of a cursor tells where it went. -/
structure Retraces (g : Graph) (c : Cursor) : Prop where
  /-- Only the last line may tell of an end that no step brought about. -/
  ending : ∀ before s rest, c.history = before ++ s :: rest → s.kind = "cursor" → rest = []
  /-- The first line is at the entry. -/
  first : ∀ s rest, c.history = s :: rest → s.nodeId = g.entry.id
  /-- Each line is where the one before led, in a state from which a cursor goes on. -/
  next : ∀ before s t rest, c.history = before ++ s :: t :: rest →
    ∃ state, g.after s = some (t.nodeId, state) ∧ state.terminal = false
  /-- The cursor is where the last line led, in the state that this line implies. -/
  here : match c.history.getLast? with
    | some s => g.after s = some (c.nodeId, c.state)
    | none => c.nodeId = g.entry.id ∧ c.state = .pending

theorem Retraces.of_walk (hw : g.Walk c.history c.nodeId c.state) : c.Retraces g where
  ending := by
    intro before s rest hsplit hs
    cases rest with
    | nil => rfl
    | cons t rest =>
      rw [hsplit] at hw
      obtain ⟨a, ha, hr⟩ := hw.next
      rw [g.after_cursor hs] at ha
      obtain ⟨-, rfl⟩ := Prod.mk.inj (Option.some.inj ha)
      split at hr <;> cases hr
  first := fun s rest hsplit => (hsplit ▸ hw).entry
  next := fun before s t rest hsplit => (hsplit ▸ hw).next
  here := by
    rcases List.eq_nil_or_concat' c.history with hnil | ⟨h, s, hlast⟩
    · rw [hnil] at hw ⊢
      generalize hl : ([] : List Step) = l at hw
      generalize c.nodeId = id, c.state = state at hw
      cases hw with
      | start => exact ⟨rfl, rfl⟩
      | @line h u =>
        exact absurd hl.symm (List.append_ne_nil_of_right_ne_nil h (List.cons_ne_nil u []))
    · rw [hlast] at hw ⊢
      rw [List.getLast?_concat]
      exact hw.last.1

end Cursor

end MailCampaign
