import MailCampaign.Proofs.Cursor.Route
import MailCampaign.Proofs.World.Course
import Mathlib.Data.List.Chain

/-!
# The visits of cursors

The lines of a history fall into visits to steps: a line with which the cursor leaves its step ends
a visit, and the next line belongs to the next one. A visit that the cursor did not leave, as it was
canceled there or failed, stays the present one.

1. A cursor leaves a condition with an answer and any other step without one, and no other line is
   an answer (`Cursor.Logged`).
2. So each visit to a condition that the cursor left holds one answer and the present visit holds
   none (`Cursor.Accounted`), along every course.
3. The steps visited make up a tour, which only gets longer. So a visit keeps its number and step.
-/

namespace MailCampaign

/-- A line of history that answers a condition. -/
def Step.Answers (s : Step) : Prop := s.outcome ∈ [Branch.yes.name, Branch.no.name]

instance (s : Step) : Decidable s.Answers := inferInstanceAs (Decidable (_ ∈ _))

theorem Step.Answers.departs {s : Step} (h : s.Answers) : s.Departs :=
  List.mem_cons_of_mem _ (List.mem_cons_of_mem _ h)

/-- A visit to a step that was left. -/
structure Visit where
  stay : List Step
  leaving : Step

/-- The lines of a visit. -/
def Visit.lines (v : Visit) : List Step := v.stay ++ [v.leaving]

/-- The visits to steps that a history tells of. -/
structure Visits where
  past : List Visit
  /-- The lines of the visit that lasts. -/
  present : List Step

namespace Visits

/-- The visits with one more line. -/
def add (v : Visits) (s : Step) : Visits :=
  if s.Departs then ⟨v.past ++ [⟨v.present, s⟩], []⟩ else ⟨v.past, v.present ++ [s]⟩

/-- The visits that a history tells of. -/
def of (history : List Step) : Visits := history.foldl add ⟨[], []⟩

theorem of_concat (history : List Step) (s : Step) : of (history ++ [s]) = (of history).add s :=
  List.foldl_concat _ _ _ _

theorem add_departs {s : Step} (h : s.Departs) (v : Visits) :
    v.add s = ⟨v.past ++ [⟨v.present, s⟩], []⟩ := if_pos h

theorem add_stays {s : Step} (h : ¬ s.Departs) (v : Visits) :
    v.add s = ⟨v.past, v.present ++ [s]⟩ := if_neg h

/-- The visits hold the lines of the history, in their order. -/
theorem flatten_of (history : List Step) :
    ((of history).past.map Visit.lines).flatten ++ (of history).present = history := by
  induction history using List.reverseRecOn with
  | nil => rfl
  | append_singleton history s ih =>
    rw [of_concat]
    by_cases h : s.Departs
    · rw [add_departs h, List.map_append, List.flatten_append, List.append_nil, List.map_singleton,
        List.flatten_singleton, Visit.lines, ← List.append_assoc, ih]
    · rw [add_stays h, ← List.append_assoc, ih]

end Visits

/-- The number of answers in a visit to a step that was left. -/
def Node.answerCount (n : Node) : Nat :=
  match n.action with
  | .condition _ => 1
  | _ => 0

/-- A visit to a step that adds up. -/
structure Node.Visited (n : Node) (v : Visit) : Prop where
  here : ∀ s ∈ v.lines, s.nodeId = n.id
  answers : v.lines.countP (·.Answers) = n.answerCount

namespace Cursor

/-- The visits of a cursor. -/
def visits (c : Cursor) : Visits := Visits.of c.history

/-- The number of the present visit; the first has number zero. -/
def visit (c : Cursor) : Nat := c.visits.past.length

/-- The ids of the steps that a cursor visited, with the present one unless the flow is over. -/
def tour (c : Cursor) : List String :=
  c.visits.past.map (·.leaving.nodeId) ++ if c.state = .completed then [] else [c.nodeId]

/-- The visits of a cursor in a version of a flow add up. -/
structure Accounted (g : Graph) (c : Cursor) : Prop where
  past : ∀ v ∈ c.visits.past, ∃ n, g.node? n.id = some n ∧ n.Visited v
  present : ∀ s ∈ c.visits.present, s.nodeId = c.nodeId ∧ ¬ s.Departs
  /-- The tour starts at the entry and goes along the edges. -/
  entry : c.tour.head? = some g.entry.id
  joined : c.tour.IsChain g.Joins

/-- What a change of a cursor adds to its history. -/
inductive Logged (g : Graph) (c d : Cursor) : Prop
  | nothing : d.history = c.history → d.nodeId = c.nodeId → d.state = c.state → Logged g c d
  /-- A line of the present visit. -/
  | stayed {s : Step} : d.history = c.history ++ [s] → s.nodeId = c.nodeId → ¬ s.Departs →
      d.nodeId = c.nodeId → c.state ≠ .completed → d.state ≠ .completed → Logged g c d
  /-- The line with which the cursor leaves its step. -/
  | left {s : Step} {n : Node} : d.history = c.history ++ [s] → s.nodeId = c.nodeId →
      s.Departs → g.node? c.nodeId = some n → (s.Answers ↔ n.answerCount = 1) →
      c.state ≠ .completed → (d.state ≠ .completed → g.Joins c.nodeId d.nodeId) → Logged g c d

variable {c d : Cursor} {flows : FlowStore} {policy : RetryPolicy} {g : Graph} {node : Node}
  {now : Instant} {branch : Branch} {outcome : String}

/-! ## One change -/

/-- A cursor leaves a condition with an answer, and any other step without one. -/
theorem Leaves.answers (h : c.Leaves node now branch outcome) (kind : String) :
    Step.Answers ⟨c.nodeId, kind, outcome, now⟩ ↔ node.answerCount = 1 := by
  unfold Step.Answers Node.answerCount
  cases h with
  | sent ha => rw [ha]; simp [Branch.name]
  | elapsed ha => rw [ha]; simp [Branch.name]
  | @answered k w cause branch ha _ _ _ hb =>
    rw [ha]
    have hv := Change.branch?_of_decisive hb
    cases hverdict : Verdict.ofWindow k w now <;> rw [hverdict] at hv <;> cases hv <;> simp

theorem not_completed_of_running (h : c.state.terminal = false) : c.state ≠ .completed := by
  intro hs
  rw [hs] at h
  cases h

theorem Turn.logged (h : c.Turn policy flows d) (hg : flows.find? c.flowId = some g) :
    Logged g c d := by
  have hc := not_completed_of_running h.running
  cases h with
  | @moved g' node next branch outcome now hat hl hn =>
    obtain rfl : g' = g := Option.some.inj (hat.version.symm.trans hg)
    exact .left rfl rfl (hl.departs _) hat.step (hl.answers _) hc
      fun _ => hat.nodeId ▸ ⟨branch, next, hn, rfl⟩
  | @completed g' node branch outcome now hat hl hn =>
    obtain rfl : g' = g := Option.some.inj (hat.version.symm.trans hg)
    exact .left rfl rfl (hl.departs _) hat.step (hl.answers _) hc fun hd => absurd rfl hd
  | delayed => exact .stayed rfl rfl (by simp [Step.Departs, Branch.name]) rfl hc fun h => by cases h
  | retried => exact .stayed rfl rfl (by simp [Step.Departs, Branch.name]) rfl hc fun h => by cases h
  | watched => exact .stayed rfl rfl (by simp [Step.Departs, Branch.name]) rfl hc fun h => by cases h
  | noted => exact .nothing rfl rfl rfl
  | reached => exact .stayed rfl rfl (by simp [Step.Departs, Branch.name]) rfl hc fun h => by cases h
  | failed => exact .stayed rfl rfl (by simp [Step.Departs, Branch.name]) rfl hc fun h => by cases h

theorem logged_canceled (g : Graph) (reason : String) (now : Instant)
    (hr : c.state.terminal = false) : Logged g c (Change.canceled reason now c) :=
  .stayed rfl rfl (Step.not_departs_canceled c.nodeId reason now) rfl
    (not_completed_of_running hr) nofun

theorem logged_counted (g : Graph) (e : Engagement) (c : Cursor) :
    Logged g c (World.counted e c) := by
  rw [counted_eq]
  exact .nothing rfl rfl rfl

/-! ## The tour -/

theorem visits_concat {s : Step} (h : d.history = c.history ++ [s]) :
    d.visits = c.visits.add s := by
  unfold visits
  rw [h, Visits.of_concat]

theorem visits_eq (h : d.history = c.history) : d.visits = c.visits := by
  unfold visits
  rw [h]

/-- The tour of a cursor whose flow is not over ends at its step. -/
theorem tour_eq (h : c.state ≠ .completed) :
    c.tour = c.visits.past.map (·.leaving.nodeId) ++ [c.nodeId] := by
  unfold tour
  rw [if_neg h]

/-- The present visit of a cursor is to its step. -/
theorem tour_visit (h : c.state ≠ .completed) : c.tour[c.visit]? = some c.nodeId := by
  rw [tour_eq h, visit, ← List.length_map (·.leaving.nodeId), List.getElem?_concat_length]

theorem Logged.visit_le (h : Logged g c d) : c.visit ≤ d.visit := by
  unfold visit
  cases h with
  | nothing hhistory => rw [visits_eq hhistory]
  | stayed hhistory _ hdeparts => rw [visits_concat hhistory, Visits.add_stays hdeparts]
  | left hhistory _ hdeparts =>
    rw [visits_concat hhistory, Visits.add_departs hdeparts, List.length_append]
    exact Nat.le_add_right _ _

/-- A tour stays as it is, or it goes on over an edge. -/
theorem Logged.tour (h : Logged g c d) : d.tour = c.tour ∨ d.tour = c.tour ++ [d.nodeId] ∧
    c.tour.getLast? = some c.nodeId ∧ g.Joins c.nodeId d.nodeId := by
  cases h with
  | nothing hhistory hnode hstate =>
    refine .inl ?_
    unfold Cursor.tour
    rw [visits_eq hhistory, hnode, hstate]
  | stayed hhistory _ hdeparts hnode hc hd =>
    refine .inl ?_
    rw [tour_eq hc, tour_eq hd, visits_concat hhistory, Visits.add_stays hdeparts, hnode]
  | @left s _ hhistory hs hdeparts _ _ hc hjoins =>
    have hpast : d.visits.past.map (·.leaving.nodeId) = c.tour := by
      rw [visits_concat hhistory, Visits.add_departs hdeparts, List.map_append, List.map_singleton,
        hs, tour_eq hc]
    by_cases hd : d.state = .completed
    · refine .inl ?_
      rw [← hpast, Cursor.tour, if_pos hd, List.append_nil]
    · refine .inr ⟨by rw [tour_eq hd, hpast], ?_, hjoins hd⟩
      rw [tour_eq hc, List.getLast?_concat]

theorem Logged.tour_prefix (h : Logged g c d) : c.tour <+: d.tour := by
  rcases h.tour with heq | ⟨heq, -⟩
  · rw [heq]
  · rw [heq]
    exact List.prefix_append _ _

/-! ## The account -/

/-- A line that leaves a step ends the visit to it, and the visit holds an answer just if the step
is a condition. -/
theorem Accounted.visited (h : c.Accounted g) (hn : g.node? c.nodeId = some node) {s : Step}
    (hs : s.nodeId = c.nodeId) (ha : s.Answers ↔ node.answerCount = 1) :
    node.Visited ⟨c.visits.present, s⟩ where
  here := fun t ht => by
    rw [Graph.id_of_node? hn]
    rcases List.mem_append.1 ht with ht | ht
    · exact (h.present t ht).1
    · rw [List.mem_singleton.1 ht, hs]
  answers := by
    have hnone : c.visits.present.countP (·.Answers) = 0 :=
      List.countP_eq_zero.2 fun t ht hans => (h.present t ht).2 (of_decide_eq_true hans).departs
    have hcount : node.answerCount = 1 ∨ node.answerCount = 0 := by
      unfold Node.answerCount
      split
      · exact .inl rfl
      · exact .inr rfl
    rw [Visit.lines, List.countP_append, hnone, Nat.zero_add, List.countP_singleton]
    rcases hcount with hone | hzero
    · rw [hone, if_pos (decide_eq_true (ha.2 hone))]
    · rw [hzero, if_neg fun hans => ?_]
      rw [ha.1 (of_decide_eq_true hans)] at hzero
      cases hzero

/-- The visits go on adding up. -/
theorem Accounted.logged (h : c.Accounted g) (hl : Logged g c d) : d.Accounted g := by
  have hentry : d.tour.head? = some g.entry.id := by
    obtain ⟨l, hl⟩ := hl.tour_prefix
    rw [← hl, List.head?_append, h.entry]
    rfl
  have hjoined : d.tour.IsChain g.Joins := by
    rcases hl.tour with heq | ⟨heq, hlast, hjoins⟩
    · exact heq ▸ h.joined
    · rw [heq]
      refine h.joined.append (.singleton _) fun a ha b hb => ?_
      rw [hlast] at ha
      cases ha
      cases hb
      exact hjoins
  suffices (∀ v ∈ d.visits.past, ∃ n, g.node? n.id = some n ∧ n.Visited v) ∧
      ∀ s ∈ d.visits.present, s.nodeId = d.nodeId ∧ ¬ s.Departs from
    ⟨this.1, this.2, hentry, hjoined⟩
  cases hl with
  | nothing hhistory hnode =>
    rw [visits_eq hhistory, hnode]
    exact ⟨h.past, h.present⟩
  | @stayed s hhistory hs hdeparts hnode =>
    rw [visits_concat hhistory, Visits.add_stays hdeparts, hnode]
    refine ⟨h.past, fun t ht => ?_⟩
    rcases List.mem_append.1 ht with ht | ht
    · exact h.present t ht
    · rw [List.mem_singleton.1 ht]
      exact ⟨hs, hdeparts⟩
  | @left s node hhistory hs hdeparts hnode hans =>
    rw [visits_concat hhistory, Visits.add_departs hdeparts]
    refine ⟨fun v hv => ?_, fun t ht => absurd ht List.not_mem_nil⟩
    rcases List.mem_append.1 hv with hv | hv
    · exact h.past v hv
    · rw [List.mem_singleton.1 hv]
      exact ⟨node, by rw [Graph.id_of_node? hnode]; exact hnode, h.visited hnode hs hans⟩

theorem Accounted.new (g : Graph) (id campaign : Uuid) (leadId : String) (now : Instant) :
    (Engine.newCursor id g campaign leadId now).Accounted g :=
  ⟨fun _ h => absurd h List.not_mem_nil, fun _ h => absurd h List.not_mem_nil, rfl, .singleton _⟩

end Cursor

/-! ## Along a course -/

namespace World

variable {policy : RetryPolicy} {scope : Scope} {w v : World} {key : CursorKey} {c d : Cursor}

/-- The visits of every cursor add up. -/
def Accounted (w : World) : Prop :=
  ∀ key c, w.cursors.find? key = some c →
    ∃ g, w.flows.find? c.flowId = some g ∧ c.Accounted g

theorem accounted_empty (nextId : Nat) : (empty nextId).Accounted := by
  intro key c hc
  cases hc

/-- What happens to a stored cursor is logged. -/
theorem Shift.logged (h : w.Shift policy scope v) {g : Graph} (hc : w.cursors.find? key = some c)
    (hg : w.flows.find? c.flowId = some g) :
    ∃ d, v.cursors.find? key = some d ∧ Cursor.Logged g c d := by
  have hch := h.changes key
  rw [hc] at hch
  generalize v.cursors.find? key = o at hch
  cases hch with
  | none => exact ⟨c, rfl, .nothing rfl rfl rfl⟩
  | turn _ ht => exact ⟨_, rfl, ht.logged hg⟩
  | canceled reason now hr => exact ⟨_, rfl, Cursor.logged_canceled g reason now hr⟩
  | counted _ e => exact ⟨_, rfl, Cursor.logged_counted g e c⟩

/-- Every small step keeps the visits adding up. -/
theorem Shift.accounted (h : w.Shift policy scope v) (hw : w.Accounted) : v.Accounted := by
  intro key d hd
  cases hc : w.cursors.find? key with
  | some c =>
    obtain ⟨g, hg, hacc⟩ := hw key c hc
    obtain ⟨d', hd', hl⟩ := h.logged hc hg
    obtain ⟨d'', hd'', hsame⟩ := h.stored hc
    obtain rfl : d' = d := Option.some.inj (hd'.symm.trans hd)
    obtain rfl : d'' = d' := Option.some.inj (hd''.symm.trans hd)
    have hflow : d''.flowId = c.flowId := congrArg CursorKey.flowId hsame.key
    exact ⟨g, h.grows _ _ (hflow ▸ hg), hacc.logged hl⟩
  | none =>
    have hch := h.changes key
    rw [hc, hd] at hch
    cases hch with
    | entered _ hg => exact ⟨_, h.grows _ _ hg, .new _ _ _ _ _⟩

theorem Course.accounted (h : w.Course policy scope v) (hw : w.Accounted) : v.Accounted :=
  h.preserves hw fun _ _ h => h.accounted

/-- Along a course a stored cursor goes on with its tour. -/
theorem Course.tour (h : w.Course policy scope v) (hw : w.Accounted)
    (hc : w.cursors.find? key = some c) :
    ∃ d, v.cursors.find? key = some d ∧ c.visit ≤ d.visit ∧ c.tour <+: d.tour := by
  induction h with
  | refl => exact ⟨c, hc, Nat.le_refl _, List.prefix_rfl⟩
  | @tail u v hu h ih =>
    obtain ⟨d, hd, hle, htour⟩ := ih
    obtain ⟨g, hg, -⟩ := Course.accounted hu hw key d hd
    obtain ⟨e, he, hl⟩ := h.logged hd hg
    exact ⟨e, he, Nat.le_trans hle hl.visit_le, htour.trans hl.tour_prefix⟩

end World

end MailCampaign
