import MailCampaign.Flow.Reach
import MailCampaign.Flow.Violation

/-!
# Legal flows

A flow is checked rule by rule, and the first broken rule is reported. The rules make sure that a
flow starts at one step, that every step can be reached, that a condition has both its branches, and
that no cycle can be run through without waiting: a cycle has to pass the `no` branch of a condition
with a window that takes time.
-/

namespace MailCampaign

namespace Document

/-! ## Offenders -/

/-- The ids that repeat an earlier one, given those seen before. -/
def repeatsAfter (seen : List String) : List String → List String
  | [] => []
  | id :: rest =>
    if seen.contains id then id :: repeatsAfter seen rest else repeatsAfter (id :: seen) rest

/-- The ids that repeat an earlier one. -/
def repeats (ids : List String) : List String := repeatsAfter [] ids

/-- The ids without the repeated ones. -/
def firstUses (ids : List String) : List String := ids.foldl (fun acc id =>
  if acc.contains id then acc else acc ++ [id]) []

/-- The step of an id. -/
def node? (d : Document) (id : String) : Option Node := d.nodes.find? fun n => n.id == id

theorem id_of_node? {d : Document} {id : String} {n : Node} (h : d.node? id = some n) :
    n.id = id := by
  have := List.find?_some h
  exact beq_iff_eq.1 this

theorem mem_of_node? {d : Document} {id : String} {n : Node} (h : d.node? id = some n) :
    n ∈ d.nodes := List.mem_of_find?_eq_some h

/-- The ends of an edge that name no step. -/
def missingEnds (d : Document) (e : Edge) : List String :=
  [e.source, e.target].filter fun id => (d.node? id).isNone

/-- The steps that no edge leads to. -/
def entries (d : Document) : List Node :=
  d.nodes.filter fun n => !(d.edges.any fun e => e.target == n.id)

/-- The edges out of a step. -/
def outgoing (d : Document) (n : Node) : List Edge := edgesFrom d.edges n.id

/-- A goal with an edge out of it. -/
def goalWithExit (d : Document) (n : Node) : Bool :=
  match n.action with
  | .goal _ => !(d.outgoing n).isEmpty
  | _ => false

/-- A mail or delay with several edges out of it. -/
def severalExits (d : Document) (n : Node) : Bool :=
  match n.action with
  | .email _ | .delay _ => 1 < (d.outgoing n).length
  | _ => false

/-- A condition that has not one edge for each answer. -/
def unclearBranches (d : Document) (n : Node) : Bool :=
  match n.action with
  | .condition _ =>
    let out := d.outgoing n
    !(out.length == 2 && (out.filter fun e => e.branch == .yes).length == 1 &&
      (out.filter fun e => e.branch == .no).length == 1)
  | _ => false

/-- The condition that an edge leaves on its `no` branch. -/
def timeoutCondition? (d : Document) (e : Edge) : Option Condition :=
  match (d.node? e.source).map Node.action with
  | some (.condition c) => if e.branch = .no then some c else none
  | _ => none

/-- The edges other than the `no` edges of conditions. -/
def promptEdges (d : Document) : List Edge := d.edges.filter fun e => (d.timeoutCondition? e).isNone

/-- The prompt edges on cycles of prompt edges. -/
def cyclingEdges (d : Document) : List Edge := d.promptEdges.filter (onCycle d.promptEdges)

/-- The `no` edges on cycles whose condition does not wait. -/
def hastyEdges (d : Document) : List Edge :=
  d.edges.filter fun e =>
    match d.timeoutCondition? e with
    | some c => c.wait.isZero && onCycle d.edges e
    | none => false

/-! ## Rules -/

/-- Passes when nothing offends. -/
def accuse (rule : Rule) (nodeIds edgeIds : List String) : Except Violation Unit :=
  if nodeIds = [] ∧ edgeIds = [] then .ok () else .error ⟨rule, nodeIds, edgeIds⟩

/-- Ids of steps are distinct, and so are ids of edges. -/
def checkIds (d : Document) : Except Violation Unit :=
  accuse .duplicateId (repeats (d.nodes.map Node.id)) (repeats (d.edges.map Edge.id))

/-- Both ends of an edge are steps. -/
def checkEnds (d : Document) : Except Violation Unit :=
  accuse .danglingEdge (firstUses (d.edges.flatMap d.missingEnds))
    ((d.edges.filter fun e => !(d.missingEnds e).isEmpty).map Edge.id)

/-- One step has no edge leading to it. -/
def checkEntry (d : Document) : Except Violation Node :=
  match d.entries with
  | [n] => .ok n
  | [] => .error ⟨.entryCount, d.nodes.map Node.id, []⟩
  | many => .error ⟨.entryCount, many.map Node.id, []⟩

/-- The steps that break a rule for outgoing edges, and their edges. -/
def checkExits (d : Document) (rule : Rule) (breaks : Node → Bool) : Except Violation Unit :=
  let bad := d.nodes.filter breaks
  accuse rule (bad.map Node.id) (bad.flatMap fun n => (d.outgoing n).map Edge.id)

/-- Every step is reached from the entry. -/
def checkReached (d : Document) (entry : Node) : Except Violation Unit :=
  let reached := reachableFrom d.edges [entry.id]
  accuse .unreachable ((d.nodes.filter fun n => !reached.contains n.id).map Node.id) []

/-- Prompt edges make no cycle. -/
def checkCycles (d : Document) : Except Violation Unit :=
  let edges := d.cyclingEdges
  let nodes := d.nodes.filter fun n => edges.any fun e => e.source == n.id
  accuse .cycle ((nodes.map Node.id).mergeSort fun a b => decide (a ≤ b)) (edges.map Edge.id)

/-- A condition waits if its `no` edge lies on a cycle. -/
def checkLoops (d : Document) : Except Violation Unit :=
  accuse .unboundedLoop (d.hastyEdges.map Edge.source) (d.hastyEdges.map Edge.id)

/-- The entry of a legal flow, or the first broken rule. -/
def validate (d : Document) : Except Violation Node := do
  d.checkIds
  d.checkEnds
  let entry ← d.checkEntry
  d.checkExits .goalHasOutgoing d.goalWithExit
  d.checkExits .tooManyOutgoing d.severalExits
  d.checkExits .conditionBranches d.unclearBranches
  d.checkReached entry
  d.checkCycles
  d.checkLoops
  return entry

end Document

end MailCampaign
