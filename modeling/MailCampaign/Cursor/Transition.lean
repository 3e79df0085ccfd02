import MailCampaign.Cursor.Basic

/-!
# Changes of state

The changes of state that a cursor may undergo. A terminal state is never left, nothing becomes
pending, and a waiting condition leads to no outcome but through the active state.
-/

namespace MailCampaign

/-- Whether a cursor may change from one state to another. -/
def CursorState.mayBecome : CursorState → CursorState → Bool
  | .pending, .pending => false
  | .pending, _ => true
  | .active, .pending => false
  | .active, _ => true
  | .waitingDelay, .active => true
  | .waitingDelay, .waitingDelay => true
  | .waitingDelay, .completed => true
  | .waitingDelay, .failed => true
  | .waitingDelay, .canceled => true
  | .waitingCondition, .active => true
  | .waitingCondition, .failed => true
  | .waitingCondition, .canceled => true
  | _, _ => false

/-- A terminal state has no successor. -/
theorem CursorState.mayBecome_of_terminal {a : CursorState} (h : a.terminal = true)
    (b : CursorState) : a.mayBecome b = false := by
  cases a <;> cases b <;> first | rfl | cases h

/-- Nothing becomes pending. -/
@[simp] theorem CursorState.mayBecome_pending (a : CursorState) : a.mayBecome .pending = false := by
  cases a <;> rfl

end MailCampaign
