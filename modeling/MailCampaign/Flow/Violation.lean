/-!
# Broken rules

The rules that a flow has to keep, in the order in which they are checked, and the report of a
broken one with all the steps and edges that break it.
-/

namespace MailCampaign

/-- A rule for flows. -/
inductive Rule where
  | duplicateId
  | danglingEdge
  | entryCount
  | goalHasOutgoing
  | tooManyOutgoing
  | conditionBranches
  | unreachable
  | cycle
  | unboundedLoop
deriving DecidableEq, Repr

def Rule.name : Rule → String
  | .duplicateId => "duplicate_id"
  | .danglingEdge => "dangling_edge"
  | .entryCount => "entry_node_count"
  | .goalHasOutgoing => "goal_has_outgoing"
  | .tooManyOutgoing => "too_many_outgoing"
  | .conditionBranches => "condition_branches"
  | .unreachable => "unreachable"
  | .cycle => "cycle"
  | .unboundedLoop => "unbounded_loop"

/-- What is wrong with a flow that breaks the rule. -/
def Rule.complaint : Rule → String
  | .duplicateId => "duplicate node or edge identifier"
  | .danglingEdge => "edge endpoint refers to an unknown node"
  | .entryCount => "flow must have exactly one entry node"
  | .goalHasOutgoing => "goal nodes must not have outgoing edges"
  | .tooManyOutgoing => "email and delay nodes allow at most one outgoing edge"
  | .conditionBranches => "condition node needs exactly one 'yes' and one 'no' outgoing edge"
  | .unreachable => "node is unreachable from the entry node"
  | .cycle => "flow contains a cycle outside a condition timeout branch"
  | .unboundedLoop => "loop through a condition timeout branch needs a non-zero wait window"

/-- A broken rule and all that breaks it. -/
structure Violation where
  rule : Rule
  nodeIds : List String
  edgeIds : List String := []
deriving DecidableEq, Repr

/-- A list of ids in parentheses, and nothing when it is empty. -/
def idList (label : String) (ids : List String) : String :=
  if ids = [] then "" else " (" ++ label ++ ": " ++ ", ".intercalate ids ++ ")"

def Violation.message (v : Violation) : String :=
  v.rule.complaint ++ idList "nodes" v.nodeIds ++ idList "edges" v.edgeIds

end MailCampaign
