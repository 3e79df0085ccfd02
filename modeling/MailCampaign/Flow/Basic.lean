import MailCampaign.Engagement
import MailCampaign.Text.Ascii
import MailCampaign.Text.Blank

/-!
# Flows

A flow is a graph of steps: mails, conditions, delays and goals. An edge carries a label that says on
which branch it is taken. A document is a flow as its author writes it; a definition is a document
that was made a version of a campaign's flow.
-/

namespace MailCampaign

/-! ## Waiting times -/

/-- A unit of waiting. -/
inductive TimeUnit where
  | hours
  | days
deriving DecidableEq, Repr

/-- A waiting time. -/
structure Wait where
  amount : UInt32
  unit : TimeUnit
deriving DecidableEq, Repr

/-- The number of seconds of a unit. -/
def TimeUnit.seconds : TimeUnit → Nat
  | .hours => 3600
  | .days => 86400

/-- The waiting time as a span; every amount is in range. -/
def Wait.span (w : Wait) : Span :=
  .ofSeconds (w.amount.toNat * w.unit.seconds : Nat) (by
    have h := w.amount.toNat_lt
    cases w.unit <;> simp only [TimeUnit.seconds] <;> omega)

/-- A waiting time that is over at once. -/
def Wait.isZero (w : Wait) : Bool := w.amount == 0

theorem Wait.span_pos {w : Wait} (h : w.isZero = false) : 0 < w.span.nanos := by
  have hne : w.amount.toNat ≠ 0 := by
    intro e
    have : w.amount = 0 := UInt32.toNat.inj e
    rw [Wait.isZero, this] at h
    cases h
  have hunit : 0 < w.unit.seconds := by cases w.unit <;> decide
  exact Int.mul_pos (Int.natCast_pos.2 (Nat.mul_pos (Nat.pos_of_ne_zero hne) hunit)) (by decide)

/-! ## Steps -/

/-- A mail: the template to render, or the subject and body themselves. -/
structure Mail where
  template : Option String
  subject : String
  body : String
deriving DecidableEq, Repr

/-- The signals that a condition listens for. -/
structure Watch where
  opened : Bool := false
  clicked : Bool := false
  replied : Bool := false
deriving DecidableEq, Repr

/-- Whether a kind of engagement is among the signals. -/
def Watch.covers (w : Watch) : EngagementKind → Bool
  | .opened => w.opened
  | .clicked => w.clicked
  | .replied => w.replied
  | _ => false

/-- What answers a condition with yes. -/
inductive MatchMode where
  /-- A watched signal within the window. -/
  | anyOf
  /-- The end of the window without a watched signal. -/
  | noneOf
deriving DecidableEq, Repr

/-- A condition: the signals it listens for, what they mean and how long it waits. -/
structure Condition where
  watch : Watch
  mode : MatchMode
  wait : Wait
deriving DecidableEq, Repr

/-- A kind of goal. -/
inductive GoalKind where
  | conversion
  | reply
  | custom
deriving DecidableEq, Repr

/-- A goal. -/
structure Goal where
  kind : GoalKind
  label : Option String
deriving DecidableEq, Repr

/-- What a step does. -/
inductive Action where
  | email (mail : Mail)
  | condition (condition : Condition)
  | delay (wait : Wait)
  | goal (goal : Goal)
deriving DecidableEq, Repr

def Action.name : Action → String
  | .email _ => "email"
  | .condition _ => "condition"
  | .delay _ => "delay"
  | .goal _ => "goal"

/-- A step of a flow. -/
structure Node where
  id : String
  action : Action
deriving DecidableEq, Repr

/-! ## Edges -/

/-- The branch on which a step is left. -/
inductive Branch where
  | yes
  | no
  | next
deriving DecidableEq, Repr

def Branch.name : Branch → String
  | .yes => "yes"
  | .no => "no"
  | .next => "next"

/-- The branch that a label names. Blanks around it and the case of ASCII letters do not matter, and
a label that names neither answer leads on. -/
def Branch.ofLabel (label : String) : Branch :=
  let name := lowerText (trim label)
  if name ∈ ["yes", "true", "match", "matched"] then .yes
  else if name ∈ ["no", "false", "timeout", "else"] then .no
  else .next

/-- A labelled edge between two steps. -/
structure Edge where
  id : String
  source : String
  sourceHandle : Option String := none
  target : String
  targetHandle : Option String := none
  conditionLabel : Option String := none
deriving DecidableEq, Repr

/-- The branch of an edge, after its source handle or else its condition label. -/
def Edge.branch (e : Edge) : Branch :=
  match e.sourceHandle.or e.conditionLabel with
  | some label => Branch.ofLabel label
  | none => .next

/-! ## Documents and definitions -/

/-- A flow as its author writes it. -/
structure Document where
  nodes : List Node
  edges : List Edge := []
deriving DecidableEq, Repr

/-- A version of the flow of a campaign. -/
structure Definition where
  id : Uuid
  campaignId : Uuid
  version : UInt32
  document : Document
  activatedAt : Instant
deriving DecidableEq

end MailCampaign
