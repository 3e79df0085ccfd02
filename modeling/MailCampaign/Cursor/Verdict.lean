import MailCampaign.Cursor.Basic

/-!
# Verdicts of conditions

What a condition answers at an instant, from the signals observed in its window. In the mode `any` a
watched signal answers yes and the end of the window no; in the mode `none` it is the other way
round. Both ends of the window belong to it.
-/

namespace MailCampaign

/-- What a condition answers. -/
inductive Verdict where
  | yes
  | no
  | pending
deriving DecidableEq, Repr

namespace Verdict

def name : Verdict → String
  | yes => "yes"
  | no => "no"
  | pending => "pending"

/-- The branch taken on a verdict. -/
def branch? : Verdict → Option Branch
  | yes => some .yes
  | no => some .no
  | pending => none

/-- The verdict once a watched signal occurred. -/
def onSignal : MatchMode → Verdict
  | .anyOf => yes
  | .noneOf => no

/-- The verdict of a window that ends without a watched signal. -/
def onTimeout : MatchMode → Verdict
  | .anyOf => no
  | .noneOf => yes

/-- Whether an observation counts for a window as of an instant. -/
def counts (watch : Watch) (opens deadline now : Instant) (o : Observation) : Bool :=
  watch.covers o.signal && decide (opens ≤ o.time) && decide (o.time ≤ deadline) &&
    decide (o.time ≤ now)

/-- The verdict as of an instant. -/
def evaluate (watch : Watch) (mode : MatchMode) (observed : List Observation)
    (opens deadline now : Instant) : Verdict :=
  if observed.any (counts watch opens deadline now) then onSignal mode
  else if deadline ≤ now then onTimeout mode
  else pending

/-- The verdict of a condition on the window of a cursor. -/
def ofWindow (c : Condition) (w : Window) (now : Instant) : Verdict :=
  evaluate c.watch c.mode w.observed w.opens w.deadline now

end Verdict

end MailCampaign
