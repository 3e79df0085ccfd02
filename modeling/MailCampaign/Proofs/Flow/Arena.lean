import MailCampaign.Proofs.Flow.Rules
import MailCampaign.Proofs.Wire.Basic

/-!
# Flows in tables

`Graph` looks steps and edges up in the lists of its document. An arena is the same flow laid out for
lookups: the steps stand in places, a table has the place of each id, and each place has a table of the
places where its branches lead. It is read off the document in one pass, in which every lookup may fail
(`none`), a repeated id or branch overwrites the one before, and a flow without entry gets the first
step.

1. One edge after the other, the tables of ways get what the edges bring (`Links.Gives.cons`), and this
   goes through as long as the ends of the edges have places (`Links.exists_gives`).
2. Distinct ids have distinct places (`Arena.find?_placesOf`), and the edges out of a step of a legal
   flow have distinct branches (`Document.Legal.nodup_branches`). So nothing is overwritten, and the
   tables hold the edges of the document (`Document.Legal.exists_arena`).
3. Then every lookup in the arena stays in range and has the answer of the graph
   (`Arena.LaysOut.inRange`, `entry?_eq`, `node?_eq`, `next?_eq`).
-/

namespace MailCampaign

/-- A flow laid out in tables. -/
structure Arena where
  nodes : List Node
  /-- The place of each id. -/
  places : Table String Nat
  /-- For each place the places where its branches lead. -/
  ways : List (Table Branch Nat)
  /-- The place of the entry. -/
  entry : Nat

/-- What is read off the edges: where the branches of each step lead, and whether some edge leads to
it. -/
structure Links where
  ways : List (Table Branch Nat)
  entered : List Bool

namespace Links

/-- What is known of so many steps before the edges are read. -/
def blank (n : Nat) : Links := ⟨.replicate n .empty, .replicate n false⟩

/-- Takes in an edge, if its ends have places. -/
def link (places : Table String Nat) (l : Links) (e : Edge) : Option Links := do
  let source ← places.find? e.source
  let target ← places.find? e.target
  let way ← l.ways[source]?
  let _ ← l.entered[target]?
  return ⟨l.ways.set source (way.insert e.branch target), l.entered.set target true⟩

end Links

namespace Arena

/-- The places of steps in a list; the last step of an id wins. -/
def placesOf (nodes : List Node) : Table String Nat := .ofList (nodes.map Node.id).zipIdx

/-- The flow of a document in tables, if no lookup fails. -/
def ofDocument (d : Document) : Option Arena := do
  let places := placesOf d.nodes
  let links ← d.edges.foldlM (Links.link places) (.blank d.nodes.length)
  return ⟨d.nodes, places, links.ways, (links.entered.findIdx? fun entered => !entered).getD 0⟩

variable (a : Arena)

/-- The step where a lead starts. -/
def entry? : Option Node := a.nodes[a.entry]?

/-- The step of an id. -/
def node? (id : String) : Option Node := do
  let place ← a.places.find? id
  a.nodes[place]?

/-- The place where a branch leads: on the way on, the first that any branch leads to. -/
def target? (way : Table Branch Nat) (branch : Branch) : Option Nat :=
  if branch = .next then way.values.head? else way.find? branch

/-- The step that follows a step on a branch. -/
def next? (id : String) (branch : Branch) : Option Node := do
  let place ← a.places.find? id
  let way ← a.ways[place]?
  let target ← target? way branch
  a.nodes[target]?

/-- No lookup in the tables leaves the lists. -/
structure InRange : Prop where
  entry : a.entry < a.nodes.length
  ways : a.ways.length = a.nodes.length
  places : ∀ id place, a.places.find? id = some place → place < a.nodes.length
  targets : ∀ way ∈ a.ways, ∀ target ∈ way.values, target < a.nodes.length

end Arena

/-! ## Reading the edges -/

namespace Links

variable {places : Table String Nat} {edges : List Edge} {e : Edge} {l l' l'' : Links}

/-- The branches of edges with the places where they lead. -/
def waysOf (places : Table String Nat) (edges : List Edge) : List (Branch × Nat) :=
  edges.map fun e => (e.branch, (places.find? e.target).getD 0)

/-- What edges add to what is known. -/
structure Gives (places : Table String Nat) (edges : List Edge) (l l' : Links) : Prop where
  ways : ∀ i, l'.ways[i]? = l.ways[i]?.map fun way : Table Branch Nat =>
    way.insertAll (waysOf places (edges.filter fun e => places.find? e.source = some i))
  entered : ∀ i, l'.entered[i]? = l.entered[i]?.map fun b =>
    b || edges.any fun e => places.find? e.target = some i

theorem Gives.nil : Gives places [] l l where
  ways i := by simp [waysOf, Table.insertAll]
  entered i := by simp

/-- One more edge, before the others. -/
theorem Gives.cons (h : l.link places e = some l') (hrest : Gives places edges l' l'') :
    Gives places (e :: edges) l l'' := by
  simp only [link, Option.bind_eq_bind, Option.bind_eq_some_iff, Option.pure_def,
    Option.some.injEq] at h
  obtain ⟨source, hsource, target, htarget, way, hway, b, hb, rfl⟩ := h
  constructor
  · intro i
    rw [hrest.ways i, List.getElem?_set]
    by_cases hi : source = i
    · subst hi
      obtain ⟨hlt, hget⟩ := List.getElem?_eq_some_iff.1 hway
      simp [hlt, hget, hsource, htarget, waysOf, Table.insertAll]
    · simp [hi, hsource]
  · intro i
    rw [hrest.entered i, List.getElem?_set]
    by_cases hi : target = i
    · subst hi
      obtain ⟨hlt, hget⟩ := List.getElem?_eq_some_iff.1 hb
      simp [hlt, htarget]
    · simp [hi, htarget]

/-- An edge is taken in when its ends have places. -/
theorem exists_link {i j n : Nat} (hsource : places.find? e.source = some i)
    (htarget : places.find? e.target = some j) (hways : l.ways.length = n)
    (hentered : l.entered.length = n) (hi : i < n) (hj : j < n) :
    ∃ l', l.link places e = some l' ∧ l'.ways.length = n ∧ l'.entered.length = n := by
  subst hways
  rw [← hentered] at hj
  refine ⟨⟨l.ways.set i (l.ways[i].insert e.branch j), l.entered.set j true⟩, ?_, ?_, ?_⟩
  · simp [link, hsource, htarget, hi, hj]
  · exact List.length_set
  · exact List.length_set.trans hentered

/-- All edges are taken in when their ends have places. -/
theorem exists_gives {n : Nat} (hways : l.ways.length = n) (hentered : l.entered.length = n)
    (hends : ∀ e ∈ edges, ∃ i j, places.find? e.source = some i ∧ places.find? e.target = some j ∧
      i < n ∧ j < n) :
    ∃ l', edges.foldlM (link places) l = some l' ∧ l'.ways.length = n ∧ l'.entered.length = n ∧
      Gives places edges l l' := by
  induction edges generalizing l with
  | nil => exact ⟨l, rfl, hways, hentered, .nil⟩
  | cons e rest ih =>
    obtain ⟨i, j, hsource, htarget, hi, hj⟩ := hends e List.mem_cons_self
    obtain ⟨l₁, hlink, hways₁, hentered₁⟩ := exists_link hsource htarget hways hentered hi hj
    obtain ⟨l₂, hfold, hways₂, hentered₂, hgives⟩ :=
      ih hways₁ hentered₁ fun e he => hends e (List.mem_cons_of_mem _ he)
    refine ⟨l₂, ?_, hways₂, hentered₂, hgives.cons hlink⟩
    rw [List.foldlM_cons, hlink]
    exact hfold

/-- The first way leads where the first edge does. -/
theorem head?_waysOf (places : Table String Nat) (edges : List Edge) :
    ((waysOf places edges).map Prod.snd).head? =
      edges.head?.map fun e => (places.find? e.target).getD 0 := by
  cases edges with
  | nil => rfl
  | cons e rest => rfl

/-- The way on a branch leads where the first edge of this branch does. -/
theorem lookup_waysOf (places : Table String Nat) (edges : List Edge) (branch : Branch) :
    Table.lookup branch (waysOf places edges) =
      (edges.find? fun e => e.branch == branch).map fun e => (places.find? e.target).getD 0 := by
  induction edges with
  | nil => rfl
  | cons e rest ih =>
    rw [waysOf, List.map_cons, Table.lookup, List.find?_cons]
    by_cases hb : e.branch = branch
    · rw [if_pos hb, beq_iff_eq.2 hb]
      rfl
    · rw [if_neg hb, beq_eq_false_iff_ne.2 hb]
      exact ih

end Links

/-! ## Nothing is overwritten -/

/-- The edges out of a step of a legal flow have distinct branches. -/
theorem Document.Legal.nodup_branches {d : Document} {entry n : Node} (h : d.Legal entry)
    (hn : n ∈ d.nodes) : ((d.outgoing n).map Edge.branch).Nodup := by
  have hshort : (d.outgoing n).length ≤ 1 → ((d.outgoing n).map Edge.branch).Nodup := by
    intro hlen
    match d.outgoing n, hlen with
    | [], _ => exact List.nodup_nil
    | [e], _ => exact List.nodup_singleton _
  cases ha : n.action with
  | email mail => exact hshort (h.several n hn (.inl ⟨mail, ha⟩))
  | delay wait => exact hshort (h.several n hn (.inr ⟨wait, ha⟩))
  | goal goal => exact hshort (by rw [h.goals n hn ⟨goal, ha⟩]; exact Nat.zero_le 1)
  | condition k =>
    obtain ⟨yes, no, hyes, hno, hperm⟩ := h.branches n hn k ha
    rw [(hperm.map Edge.branch).nodup_iff, List.map_cons, List.map_singleton, hyes, hno]
    decide

namespace Arena

/-- Distinct ids have the places of their steps. -/
theorem find?_placesOf {nodes : List Node} (h : (nodes.map Node.id).Nodup) {id : String} {i : Nat} :
    (placesOf nodes).find? id = some i ↔ ∃ n, nodes[i]? = some n ∧ n.id = id := by
  have hkeys : ((nodes.map Node.id).zipIdx.map Prod.fst).Nodup := by
    rwa [List.zipIdx_map_fst]
  rw [← Table.mem_toList, Table.toList, placesOf, Table.entries_ofList hkeys,
    List.mem_zipIdx_iff_getElem?, List.getElem?_map, Option.map_eq_some_iff]

/-- An arena whose tables hold a document. -/
structure LaysOut (a : Arena) (d : Document) (entry : Node) : Prop where
  nodes : a.nodes = d.nodes
  places : ∀ id (i : Nat), a.places.find? id = some i ↔ ∃ n, d.nodes[i]? = some n ∧ n.id = id
  length : a.ways.length = d.nodes.length
  ways : ∀ (i : Nat) (n : Node), d.nodes[i]? = some n →
    ∃ way : Table Branch Nat,
      a.ways[i]? = some way ∧ way.entries = Links.waysOf a.places (d.outgoing n)
  entry : d.nodes[a.entry]? = some entry

end Arena

section Layout

variable {places : Table String Nat} {d : Document} {entry n : Node} {links : Links} {i : Nat}

/-- The ids with the place of a step are those equal to its own. -/
theorem decide_place_eq
    (hplaces : ∀ id (i : Nat), places.find? id = some i ↔ ∃ n, d.nodes[i]? = some n ∧ n.id = id)
    (hn : d.nodes[i]? = some n) (id : String) : decide (places.find? id = some i) = (id == n.id) := by
  rw [Bool.eq_iff_iff, decide_eq_true_iff, beq_iff_eq, hplaces, hn]
  exact ⟨fun ⟨m, hm, hid⟩ => Option.some.inj hm ▸ hid.symm, fun hid => ⟨n, rfl, hid.symm⟩⟩

/-- The ways out of a step of a legal flow are those of its edges. -/
theorem Links.Gives.entries_way (h : Gives places d.edges (.blank d.nodes.length) links)
    (hd : d.Legal entry)
    (hplaces : ∀ id (i : Nat), places.find? id = some i ↔ ∃ n, d.nodes[i]? = some n ∧ n.id = id)
    (hn : d.nodes[i]? = some n) :
    ∃ way : Table Branch Nat,
      links.ways[i]? = some way ∧ way.entries = waysOf places (d.outgoing n) := by
  obtain ⟨hlt, -⟩ := List.getElem?_eq_some_iff.1 hn
  have hout : (d.edges.filter fun e => places.find? e.source = some i) = d.outgoing n :=
    List.filter_congr fun e _ => decide_place_eq hplaces hn e.source
  refine ⟨_, (h.ways i).trans (by rw [blank, List.getElem?_replicate, if_pos hlt]; rfl), ?_⟩
  rw [hout]
  refine Table.entries_ofList ?_
  rw [waysOf, List.map_map]
  exact hd.nodup_branches (List.mem_of_getElem? hn)

/-- Whether some edge leads to a step. -/
theorem Links.Gives.entered_eq (h : Gives places d.edges (.blank d.nodes.length) links)
    (hplaces : ∀ id (i : Nat), places.find? id = some i ↔ ∃ n, d.nodes[i]? = some n ∧ n.id = id)
    (hn : d.nodes[i]? = some n) :
    links.entered[i]? = some (d.edges.any fun e => e.target == n.id) := by
  obtain ⟨hlt, -⟩ := List.getElem?_eq_some_iff.1 hn
  have hany : (d.edges.any fun e => places.find? e.target = some i) =
      d.edges.any fun e => e.target == n.id :=
    congrArg d.edges.any (funext fun e => decide_place_eq hplaces hn e.target)
  rw [h.entered i, blank, List.getElem?_replicate, if_pos hlt, hany]
  rfl

/-- The first place that no edge leads to is that of the entry. -/
theorem Links.Gives.getElem?_entry (h : Gives places d.edges (.blank d.nodes.length) links)
    (hd : d.Legal entry) (hlength : links.entered.length = d.nodes.length)
    (hplaces : ∀ id (i : Nat), places.find? id = some i ↔ ∃ n, d.nodes[i]? = some n ∧ n.id = id) :
    d.nodes[(links.entered.findIdx? fun entered => !entered).getD 0]? = some entry := by
  obtain ⟨hmem, hfree⟩ := (hd.start entry).2 rfl
  obtain ⟨k, hk⟩ := List.mem_iff_getElem?.1 hmem
  have hentry : links.entered[k]? = some false := by
    rw [h.entered_eq hplaces hk]
    simpa using hfree
  cases hfind : links.entered.findIdx? fun entered => !entered with
  | none =>
    have htrue := List.findIdx?_eq_none_iff.1 hfind false (List.mem_of_getElem? hentry)
    cases htrue
  | some j =>
    obtain ⟨hlt, hfalse, -⟩ := List.findIdx?_eq_some_iff_getElem.1 hfind
    have hj : j < d.nodes.length := hlength ▸ hlt
    -- No edge leads to the step that was found, and the entry is the only such step.
    have hany := h.entered_eq hplaces (List.getElem?_eq_getElem hj)
    rw [List.getElem?_eq_getElem hlt, (Bool.not_eq_true' _).mp hfalse, Option.some.injEq] at hany
    have hfound : d.nodes[j] = entry :=
      (hd.start _).1 ⟨List.getElem_mem hj, by simpa using hany.symm⟩
    rw [Option.getD_some, List.getElem?_eq_getElem hj, hfound]

end Layout

namespace Document

variable {d : Document} {entry : Node}

/-- The place of an id that names a step. -/
theorem Legal.exists_place (h : d.Legal entry) {id : String} (hid : d.Names id) :
    ∃ i, (Arena.placesOf d.nodes).find? id = some i ∧ i < d.nodes.length := by
  obtain ⟨n, hn, rfl⟩ := hid
  obtain ⟨i, hi⟩ := List.mem_iff_getElem?.1 hn
  exact ⟨i, (Arena.find?_placesOf h.nodeIds).2 ⟨n, hi, rfl⟩, (List.getElem?_eq_some_iff.1 hi).1⟩

/-- **A legal flow is laid out without loss.** No lookup fails while its edges are read, no id and no
branch overwrites another, and the one step that no edge leads to is found. -/
theorem Legal.exists_arena (h : d.Legal entry) :
    ∃ a, Arena.ofDocument d = some a ∧ a.LaysOut d entry := by
  have hplaces : ∀ id i, (Arena.placesOf d.nodes).find? id = some i ↔
      ∃ n, d.nodes[i]? = some n ∧ n.id = id := fun _ _ => Arena.find?_placesOf h.nodeIds
  have hends : ∀ e ∈ d.edges, ∃ i j, (Arena.placesOf d.nodes).find? e.source = some i ∧
      (Arena.placesOf d.nodes).find? e.target = some j ∧
      i < d.nodes.length ∧ j < d.nodes.length := by
    intro e he
    obtain ⟨i, hi, hlt⟩ := h.exists_place (h.ends e he).1
    obtain ⟨j, hj, hlt'⟩ := h.exists_place (h.ends e he).2
    exact ⟨i, j, hi, hj, hlt, hlt'⟩
  obtain ⟨links, hlinks, hways, hentered, hgives⟩ := Links.exists_gives
    (l := .blank d.nodes.length) List.length_replicate List.length_replicate hends
  exact ⟨_, by rw [Arena.ofDocument, hlinks]; rfl, rfl, hplaces, hways,
    fun i n hn => hgives.entries_way h hplaces hn, hgives.getElem?_entry h hentered hplaces⟩

end Document

/-! ## Lookups -/

namespace Arena.LaysOut

variable {a : Arena} {d : Document} {g : Graph} {entry n : Node} {id : String} {i : Nat}

/-- The place of an id that names a step. -/
theorem exists_place (h : a.LaysOut d entry) (hid : d.Names id) :
    ∃ i n, a.places.find? id = some i ∧ d.nodes[i]? = some n ∧ n.id = id := by
  obtain ⟨n, hn, rfl⟩ := hid
  obtain ⟨i, hi⟩ := List.mem_iff_getElem?.1 hn
  exact ⟨i, n, (h.places n.id i).2 ⟨n, hi, rfl⟩, hi, rfl⟩

theorem inRange (h : a.LaysOut d entry) (hd : d.Legal entry) : a.InRange where
  entry := by
    rw [h.nodes]
    exact (List.getElem?_eq_some_iff.1 h.entry).1
  ways := by rw [h.length, h.nodes]
  places id place hid := by
    obtain ⟨n, hn, -⟩ := (h.places id place).1 hid
    rw [h.nodes]
    exact (List.getElem?_eq_some_iff.1 hn).1
  targets way hway target htarget := by
    obtain ⟨i, hi⟩ := List.mem_iff_getElem?.1 hway
    have hlt : i < d.nodes.length := h.length ▸ (List.getElem?_eq_some_iff.1 hi).1
    obtain ⟨way', hway', hentries⟩ := h.ways i _ (List.getElem?_eq_getElem hlt)
    obtain rfl : way = way' := Option.some.inj (hi.symm.trans hway')
    rw [Table.values, hentries, Links.waysOf, List.map_map] at htarget
    obtain ⟨e, he, rfl⟩ := List.mem_map.1 htarget
    obtain ⟨j, n, hj, hn, -⟩ := h.exists_place (hd.ends e (List.mem_filter.1 he).1).2
    rw [Function.comp_apply, hj, h.nodes]
    exact (List.getElem?_eq_some_iff.1 hn).1

theorem entry?_eq (h : a.LaysOut d entry) : a.entry? = some entry := by
  rw [Arena.entry?, h.nodes, h.entry]

/-- The step of an id is the one in the document. -/
theorem node?_eq (h : a.LaysOut d entry) (hd : d.Legal entry) (id : String) :
    a.node? id = d.node? id := by
  unfold Arena.node?
  cases hid : a.places.find? id with
  | none =>
    cases hn : d.node? id with
    | none => rfl
    | some n =>
      obtain ⟨i, -, hi, -⟩ := h.exists_place (Document.names_iff.2 (Option.isSome_of_eq_some hn))
      rw [hid] at hi
      cases hi
  | some i =>
    obtain ⟨n, hn, rfl⟩ := (h.places id i).1 hid
    rw [Document.node?_of_mem hd.nodeIds (List.mem_of_getElem? hn), h.nodes]
    exact hn

/-- A branch leads where its edge does. -/
theorem target?_eq {way : Table Branch Nat} {places : Table String Nat}
    (h : way.entries = Links.waysOf places (g.definition.document.outgoing n)) (branch : Branch) :
    target? way branch =
      (g.exit? n.id branch).map fun e => (places.find? e.target).getD 0 := by
  have hexit : g.exit? n.id branch =
      (g.definition.document.outgoing n).find? fun e => branch == .next || e.branch == branch := by
    unfold Graph.exit? Document.outgoing edgesFrom
    simp only [List.find?_filter, Bool.decide_and, Bool.decide_eq_true]
  unfold target?
  rw [hexit, Table.values, Table.find?, h, Links.head?_waysOf, Links.lookup_waysOf]
  split
  · next hnext =>
    subst hnext
    cases g.definition.document.outgoing n with
    | nil => rfl
    | cons e rest => rfl
  · next hnext => rw [beq_eq_false_iff_ne.2 hnext]; rfl

/-- What follows a step is what its edge leads to in the document. -/
theorem next?_eq (h : a.LaysOut g.definition.document g.entry) (id : String) (branch : Branch) :
    a.next? id branch = g.next? id branch := by
  have hd := g.lawful_flow
  unfold Arena.next? Graph.next?
  cases hid : a.places.find? id with
  | none =>
    cases he : g.exit? id branch with
    | none => rfl
    | some e =>
      obtain ⟨hmem, rfl⟩ := Graph.mem_of_exit? he
      obtain ⟨i, -, hi, -⟩ := h.exists_place (hd.ends e hmem).1
      rw [hid] at hi
      cases hi
  | some i =>
    obtain ⟨n, hn, rfl⟩ := (h.places id i).1 hid
    obtain ⟨way, hway, hentries⟩ := h.ways i n hn
    simp only [Option.bind_eq_bind, Option.bind_some, hway, target?_eq hentries]
    cases he : g.exit? n.id branch with
    | none => rfl
    | some e =>
      obtain ⟨j, m, hj, -, -⟩ := h.exists_place (hd.ends e (Graph.mem_of_exit? he).1).2
      have hnode : a.node? e.target = g.node? e.target := h.node?_eq hd e.target
      rw [Arena.node?, hj] at hnode
      rw [Option.map_some, hj]
      exact hnode

end Arena.LaysOut

end MailCampaign
