import MailCampaign.Cursor.Verdict
import MailCampaign.Proofs.Flow.Rules

/-!
# Loops that wait

The rules let a cycle pass the `no` branch of a condition that waits, for that is where a window ends.
It ends there in the mode `any` only: in the mode `none` the end of the window leads to `yes`, and `no`
is where a signal leads, at once. So every cycle of a legal flow has an edge on which the end of a
window leads, as long as the conditions that cycles leave on `no` are in the mode `any`
(`Legal.exists_timeout`).
-/

namespace MailCampaign

namespace Verdict

/-- An answer is not the way on. -/
theorem branch?_ne_next {v : Verdict} {branch : Branch} (h : v.branch? = some branch) :
    branch ≠ .next := by
  rintro rfl
  cases v <;> cases h

/-- A verdict that names the branch on which the end of a window leads is given at that end. -/
theorem eq_onTimeout {v : Verdict} {mode : MatchMode} {branch : Branch}
    (hv : v.branch? = some branch) (hm : (onTimeout mode).branch? = some branch) :
    v = onTimeout mode := by
  rw [← hm] at hv
  cases v <;> cases mode <;> first | rfl | cases hv

/-- The end of a window is not answered before it. -/
theorem deadline_le_of_evaluate {watch : Watch} {mode : MatchMode} {observed : List Observation}
    {opens deadline now : Instant}
    (h : evaluate watch mode observed opens deadline now = onTimeout mode) : deadline ≤ now := by
  unfold evaluate at h
  split at h
  · cases mode <;> cases h
  · split at h
    · next hdue => exact hdue
    · cases mode <;> cases h

end Verdict

namespace Document

/-- An edge leaves a condition on the branch that is taken when its window ends without a signal. -/
def LeavesOnTimeout (d : Document) (e : Edge) (k : Condition) : Prop :=
  (∃ n ∈ d.nodes, n.id = e.source ∧ n.action = .condition k) ∧
    (Verdict.onTimeout k.mode).branch? = some e.branch

/-- The conditions that cycles leave on `no` are in the mode `any`. -/
def LoopsOnAny (d : Document) : Prop :=
  ∀ l, Cycle d.edges l → ∀ e ∈ l, ∀ k, d.LeavesOnNo e k → k.mode = .anyOf

variable {d : Document} {entry : Node} {l : List Edge} {e : Edge} {k : Condition}

theorem LeavesOnNo.leavesOnTimeout (h : d.LeavesOnNo e k) (hm : k.mode = .anyOf) :
    d.LeavesOnTimeout e k := by
  refine ⟨h.1, ?_⟩
  rw [hm, h.2]
  rfl

/-- A cycle that leaves conditions on `no` in the mode `any` only has an edge on which the end of a
window leads, and that window takes time. -/
theorem Legal.exists_timeout (h : d.Legal entry) (hl : Cycle d.edges l)
    (hany : ∀ e ∈ l, ∀ k, d.LeavesOnNo e k → k.mode = .anyOf) :
    ∃ e ∈ l, ∃ k, d.LeavesOnTimeout e k ∧ k.wait.isZero = false := by
  obtain ⟨e, he, k, hk⟩ := h.cycles l hl
  exact ⟨e, he, k, hk.leavesOnTimeout (hany e he k hk), h.loops l hl e he k hk⟩

/-- Steps with one id are one step. -/
theorem Legal.eq_of_id (h : d.Legal entry) {n n' : Node} (hn : n ∈ d.nodes) (hn' : n' ∈ d.nodes)
    (hid : n.id = n'.id) : n = n' := List.inj_on_of_nodup_map h.nodeIds hn hn' hid

end Document

end MailCampaign
