import MailCampaign.Flow.Basic

/-!
# Paths in a flow

The steps that edges lead to from some steps. Every edge is followed at most once: the edges out of
a step are taken off the list when the step is visited, so the search ends.
-/

namespace MailCampaign

/-- The edges out of a step. -/
def edgesFrom (edges : List Edge) (id : String) : List Edge := edges.filter fun e => e.source == id

/-- The edges out of other steps. -/
def edgesElsewhere (edges : List Edge) (id : String) : List Edge :=
  edges.filter fun e => !(e.source == id)

theorem length_edgesFrom_add (edges : List Edge) (id : String) :
    (edgesFrom edges id).length + (edgesElsewhere edges id).length = edges.length := by
  induction edges with
  | nil => rfl
  | cons e edges ih =>
    simp only [edgesFrom, edgesElsewhere] at ih
    by_cases h : (e.source == id) = true <;>
      simp only [edgesFrom, edgesElsewhere, List.filter_cons, h, Bool.not_true, Bool.not_false,
        Bool.false_eq_true, if_true, if_false, List.length_cons] <;> omega

/-- The steps on paths from the given ones, these included; a step may be listed more than once. -/
def reachableFrom (edges : List Edge) (frontier : List String) : List String :=
  match frontier with
  | [] => []
  | id :: rest =>
    id :: reachableFrom (edgesElsewhere edges id) ((edgesFrom edges id).map Edge.target ++ rest)
termination_by edges.length + frontier.length
decreasing_by
  have := length_edgesFrom_add edges id
  simp only [List.length_append, List.length_map, List.length_cons]
  omega

/-- Whether a path leads from one step to another; each step leads to itself. -/
def leads (edges : List Edge) (a b : String) : Bool := (reachableFrom edges [a]).contains b

/-- Whether an edge lies on a cycle. -/
def onCycle (edges : List Edge) (e : Edge) : Bool := leads edges e.target e.source

end MailCampaign
