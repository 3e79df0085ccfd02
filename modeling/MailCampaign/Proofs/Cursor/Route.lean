import MailCampaign.Engine.Dispatch
import MailCampaign.Proofs.Cursor.WellFormed
import MailCampaign.Proofs.Flow.Timeouts

/-!
# The routes of cursors

The history of a cursor tells the route that it took: it starts at the entry of its version, a line
with which the cursor left its step leads over an edge to the next one, and any other line leaves it
where it was. A line with which a condition was left over the edge for the end of its window comes
right after the line with which the window opened, and not before the window has passed.

So a route that comes back to a step takes a cycle, and on a cycle that waits it sat out a window
(`Legal.loop_sat_out`).
-/

namespace MailCampaign

/-- A condition is left on the branch of its verdict. -/
theorem Change.branch?_of_decisive {k : Condition} {cause : Cause} {v : Verdict} {branch : Branch}
    (h : decisive k cause v = some branch) : v.branch? = some branch := by
  unfold decisive at h
  split at h
  · cases h
  · exact h

/-- A line of history with which a cursor leaves its step. -/
def Step.Departs (s : Step) : Prop :=
  s.outcome ∈ ["sent", "delay_elapsed", Branch.yes.name, Branch.no.name]

instance (s : Step) : Decidable s.Departs := inferInstanceAs (Decidable (_ ∈ _))

/-- A cursor that is canceled does not leave its step. -/
theorem Step.not_departs_canceled (nodeId reason : String) (now : Instant) :
    ¬ Step.Departs ⟨nodeId, "cursor", "canceled: " ++ reason, now⟩ := by
  simp only [Step.Departs, Branch.name, List.mem_cons, List.not_mem_nil, or_false,
    ← String.toList_inj, String.toList_append]
  simp

/-- The lines of history of a window that was sat out: the cursor came to the condition, and when the
window had passed it left on the branch for that. -/
structure Condition.SatOut (k : Condition) (opening leaving : Step) : Prop where
  nodeId : opening.nodeId = leaving.nodeId
  entered : opening.outcome = "condition_entered"
  left : (Verdict.onTimeout k.mode).branch?.map Branch.name = some leaving.outcome
  passed : ∃ deadline, opening.time.add? k.wait.span = some deadline ∧ deadline ≤ leaving.time

namespace Document

/-- The lines of history lead from the entry to a step. -/
inductive Route (d : Document) (entry : String) : List Step → String → Prop
  | start : Route d entry [] entry
  /-- The cursor stays where it is. -/
  | stayed {h : List Step} {s : Step} : Route d entry h s.nodeId → ¬ s.Departs →
      Route d entry (h ++ [s]) s.nodeId
  /-- The cursor leaves its step over an edge. -/
  | left {h : List Step} {s : Step} {e : Edge} : Route d entry h s.nodeId → s.Departs →
      e ∈ d.edges → e.source = s.nodeId →
      (∀ k, d.LeavesOnTimeout e k → ∃ opening, h.getLast? = some opening ∧ k.SatOut opening s) →
      Route d entry (h ++ [s]) e.target

variable {d : Document} {entry : String} {h : List Step} {s : Step} {a b : String}

/-- The last line of a route says how it came to its end. -/
theorem Route.last (hr : d.Route entry (h ++ [s]) b) :
    d.Route entry h s.nodeId ∧ (¬ s.Departs ∧ b = s.nodeId ∨ s.Departs ∧
      ∃ e ∈ d.edges, e.source = s.nodeId ∧ e.target = b ∧
        ∀ k, d.LeavesOnTimeout e k → ∃ opening, h.getLast? = some opening ∧ k.SatOut opening s) := by
  generalize hl : h ++ [s] = l at hr
  cases hr with
  | start => exact absurd hl (List.append_ne_nil_of_right_ne_nil h (List.cons_ne_nil s []))
  | stayed hr hs =>
    obtain ⟨rfl, rfl⟩ := List.append_singleton_inj.1 hl
    exact ⟨hr, .inl ⟨hs, rfl⟩⟩
  | @left _ _ e hr hs he hsource hsat =>
    obtain ⟨rfl, rfl⟩ := List.append_singleton_inj.1 hl
    exact ⟨hr, .inr ⟨hs, e, he, hsource, rfl, hsat⟩⟩

/-- The part of a route from one of its steps on takes a walk. Each edge of the walk is taken by a line
of that part, and there is one if a line of it leaves its step. -/
theorem Route.walk {before part : List Step} (hr : d.Route entry (before ++ part) b) :
    ∃ a l, (part.map Step.nodeId ++ [b]).head? = some a ∧ Walk d.edges a l b ∧
      (∀ s ∈ part, s.Departs → l ≠ []) ∧
      ∀ e ∈ l, ∃ first s rest, part = first ++ s :: rest ∧ e.source = s.nodeId ∧
        ∀ k, d.LeavesOnTimeout e k →
          ∃ opening, (before ++ first).getLast? = some opening ∧ k.SatOut opening s := by
  induction part using List.reverseRecOn generalizing b with
  | nil => exact ⟨b, [], rfl, rfl, fun s hs => absurd hs List.not_mem_nil,
      fun e he => absurd he List.not_mem_nil⟩
  | append_singleton part s ih =>
    rw [← List.append_assoc] at hr
    obtain ⟨hpart, hlast⟩ := hr.last
    obtain ⟨a, l, ha, hwalk, hne, hlines⟩ := ih hpart
    have hhead : ((part ++ [s]).map Step.nodeId ++ [b]).head? = some a := by
      rw [List.map_append, List.head?_append, List.map_singleton, ha]
      rfl
    have hgrown : ∀ e ∈ l, ∃ first t rest, part ++ [s] = first ++ t :: rest ∧ e.source = t.nodeId ∧
        ∀ k, d.LeavesOnTimeout e k →
          ∃ opening, (before ++ first).getLast? = some opening ∧ k.SatOut opening t := by
      intro e he
      obtain ⟨first, t, rest, rfl, hsat⟩ := hlines e he
      exact ⟨first, t, rest ++ [s], by rw [List.append_assoc, List.cons_append], hsat⟩
    rcases hlast with ⟨hstay, rfl⟩ | ⟨-, e, he, hsource, rfl, hsat⟩
    · refine ⟨a, l, hhead, hwalk, fun t ht hd => ?_, hgrown⟩
      rcases List.mem_append.1 ht with ht | ht
      · exact hne t ht hd
      · exact absurd (List.mem_singleton.1 ht ▸ hd) hstay
    · refine ⟨a, l ++ [e], hhead, hwalk.append ⟨he, hsource, rfl⟩, fun t _ _ => by simp, ?_⟩
      intro e' he'
      rcases List.mem_append.1 he' with he' | he'
      · exact hgrown e' he'
      · rw [List.mem_singleton.1 he']
        exact ⟨part, s, [], rfl, hsource, hsat⟩

/-- A route that leaves a step and comes back to it sat out a window in between, when the conditions
that cycles leave on `no` are in the mode `any`. The line that leaves the step may be the one that
ends the window. -/
theorem Legal.sat_out {start : Node} {before loop : List Step} {leaving : Step}
    (hlegal : d.Legal start) (hany : d.LoopsOnAny) (hleaving : leaving.Departs)
    (hr : d.Route entry (before ++ leaving :: loop) leaving.nodeId) :
    ∃ first waited rest opening, leaving :: loop = first ++ waited :: rest ∧
      (before ++ first).getLast? = some opening ∧
      ∃ n ∈ d.nodes, ∃ k, n.id = waited.nodeId ∧ n.action = .condition k ∧
        k.wait.isZero = false ∧ k.SatOut opening waited := by
  obtain ⟨a, l, ha, hwalk, hne, hlines⟩ := hr.walk
  obtain rfl : leaving.nodeId = a := Option.some.inj ha
  have hcycle : Cycle d.edges l := ⟨hne leaving List.mem_cons_self hleaving, _, hwalk⟩
  obtain ⟨e, he, k, hk, hwait⟩ := hlegal.exists_timeout hcycle (hany l hcycle)
  obtain ⟨first, waited, rest, hsplit, hsource, hsat⟩ := hlines e he
  obtain ⟨opening, hopening, hk'⟩ := hsat k hk
  obtain ⟨⟨n, hn, hid, ha⟩, -⟩ := hk
  exact ⟨first, waited, rest, opening, hsplit, hopening, n, hn, k, hid.trans hsource, ha, hwait, hk'⟩

end Document

/-! ## The routes of cursors -/

/-- The history of a cursor tells its route in a flow that starts at a step. -/
structure Cursor.Routed (d : Document) (entry : String) (c : Cursor) : Prop where
  /-- The lines before a line lead to its step. -/
  lines : ∀ before s rest, c.history = before ++ s :: rest → d.Route entry before s.nodeId
  /-- All lines lead to where the cursor is, unless it left its last step for good. -/
  here : c.state ≠ .completed → d.Route entry c.history c.nodeId
  /-- The last line before a cursor waits at a condition opened its window. -/
  opened : c.state = .waitingCondition → ∀ w, c.window = some w →
    ∃ s, c.history.getLast? = some s ∧ s.nodeId = c.nodeId ∧ s.outcome = "condition_entered" ∧
      s.time = w.opens

namespace Cursor

variable {d : Document} {entry : String} {c c' : Cursor} {flows : FlowStore} {policy : RetryPolicy}
  {g : Graph} {node : Node} {now : Instant} {branch : Branch} {outcome : String}

/-- A route with one more line. -/
theorem Routed.lines_log (h : c.Routed d entry) (hc : c.state ≠ .completed) (s : Step)
    (hs : s.nodeId = c.nodeId) (before : List Step) (t : Step) (rest : List Step)
    (hsplit : c.history ++ [s] = before ++ t :: rest) : d.Route entry before t.nodeId := by
  rcases List.eq_nil_or_concat' rest with rfl | ⟨rest, u, rfl⟩
  · obtain ⟨rfl, rfl⟩ := List.append_singleton_inj.1 hsplit
    exact hs ▸ h.here hc
  · rw [← List.cons_append, ← List.append_assoc] at hsplit
    obtain ⟨hhistory, -⟩ := List.append_singleton_inj.1 hsplit
    exact h.lines before t rest hhistory

/-- A line that does not leave the step of a cursor keeps its route. -/
theorem Routed.stay (h : c.Routed d entry) (hc : c.state ≠ .completed) {s : Step}
    (hs : s.nodeId = c.nodeId) (hd : ¬ s.Departs) (hh : c'.history = c.history ++ [s])
    (hn : c'.nodeId = c.nodeId)
    (hw : c'.state = .waitingCondition → ∀ w, c'.window = some w →
      s.outcome = "condition_entered" ∧ s.time = w.opens) : c'.Routed d entry where
  lines := fun before t rest hsplit => h.lines_log hc s hs before t rest (hh ▸ hsplit)
  here := fun _ => by
    rw [hh, hn, ← hs]
    exact .stayed (hs ▸ h.here hc) hd
  opened := fun hstate w hwin =>
    ⟨s, by rw [hh, List.getLast?_concat], hs.trans hn.symm, hw hstate w hwin⟩

/-- A route is told by the history, the step and the opening of the window. -/
theorem Routed.congr (h : c.Routed d entry) (hh : c'.history = c.history) (hn : c'.nodeId = c.nodeId)
    (hs : c'.state = c.state)
    (hw : ∀ w', c'.window = some w' → ∃ w, c.window = some w ∧ w'.opens = w.opens) :
    c'.Routed d entry where
  lines := by rw [hh]; exact h.lines
  here := by rw [hh, hn, hs]; exact h.here
  opened := by
    intro hstate w' hwin
    obtain ⟨w, hw, hopens⟩ := hw w' hwin
    rw [hh, hn, hopens]
    exact h.opened (hs ▸ hstate) w hw

/-- The line with which a cursor leaves its step departs. -/
theorem Leaves.departs (h : c.Leaves node now branch outcome) (kind : String) :
    Step.Departs ⟨c.nodeId, kind, outcome, now⟩ := by
  unfold Step.Departs
  cases h with
  | sent => simp
  | elapsed => simp
  | @answered k w cause branch _ _ _ _ hb =>
    have hv := Change.branch?_of_decisive hb
    cases hverdict : Verdict.ofWindow k w now <;> rw [hverdict] at hv <;> cases hv <;> simp

/-- The edge on which an answer leads has the branch of that answer. -/
theorem branch_of_exit? {e : Edge} {id : String} {v : Verdict} (he : g.exit? id branch = some e)
    (hv : v.branch? = some branch) : e.branch = branch := by
  have hfound := List.find?_some he
  simp only [Bool.and_eq_true, Bool.or_eq_true, beq_iff_eq] at hfound
  exact hfound.2.resolve_left (Verdict.branch?_ne_next hv)

/-- A cursor that leaves a condition over the edge for the end of its window sat it out. -/
theorem Routed.sat_out (h : c.Routed d entry) (hd : g.definition.document = d)
    (hwf : c.WellFormed flows) (hat : c.At flows g node) (hl : c.Leaves node now branch outcome)
    {e : Edge} (he : g.exit? node.id branch = some e) {k : Condition}
    (hk : d.LeavesOnTimeout e k) :
    ∃ opening, c.history.getLast? = some opening ∧
      k.SatOut opening ⟨c.nodeId, node.action.name, outcome, now⟩ := by
  subst hd
  obtain ⟨⟨n, hn, hid, hka⟩, hbranch⟩ := hk
  have hnode : n = node := g.lawful_flow.eq_of_id hn (Document.mem_of_node? hat.step)
    (hid.trans (Graph.mem_of_exit? he).2)
  rw [hnode] at hka
  cases hl with
  | sent ha => rw [ha] at hka; cases hka
  | elapsed ha => rw [ha] at hka; cases hka
  | @answered k' w cause branch ha hs hw hwn hb =>
    obtain rfl : k = k' := Action.condition.inj (hka.symm.trans ha)
    have hv := Change.branch?_of_decisive hb
    rw [branch_of_exit? he hv] at hbranch
    have hfit := (hwf.fits hat).1
    unfold Fits at hfit
    rw [hs] at hfit
    obtain ⟨k', w', ha', hw', hwindow⟩ := hfit
    obtain rfl : k' = k := Action.condition.inj (ha'.symm.trans ha)
    obtain rfl : w' = w := Option.some.inj (hw'.symm.trans hw)
    obtain ⟨opening, hlast, hopeningId, hentered, htime⟩ := h.opened hs w' hw
    have hdue : w'.deadline ≤ now :=
      Verdict.deadline_le_of_evaluate (Verdict.eq_onTimeout hv hbranch)
    exact ⟨opening, hlast, hopeningId, hentered, by rw [hbranch]; rfl, w'.deadline,
      htime ▸ hwindow.lasts, hdue⟩

/-- The history of a new cursor tells that it is at the entry. -/
theorem Routed.new (id campaign : Uuid) (leadId : String) (now : Instant) :
    (Engine.newCursor id g campaign leadId now).Routed d g.entry.id where
  lines := fun before s rest h => absurd h.symm (by simp [Engine.newCursor])
  here := fun _ => .start
  opened := nofun

/-- Counting on a cursor keeps its route. -/
theorem Routed.counted (h : c.Routed d entry) (e : Engagement) :
    (World.counted e c).Routed d entry := by
  rw [counted_eq]
  exact h.congr rfl rfl rfl fun w hw => ⟨w, hw, rfl⟩

/-- So does canceling it. -/
theorem Routed.canceled (h : c.Routed d entry) (hr : c.state.terminal = false) (reason : String)
    (now : Instant) : (Change.canceled reason now c).Routed d entry :=
  h.stay (fun hs => by rw [hs] at hr; cases hr) rfl
    (Step.not_departs_canceled c.nodeId reason now) rfl rfl nofun

/-- A cursor goes on along its route. -/
theorem Routed.turn (h : c.Routed d entry) (hwf : c.WellFormed flows)
    (hg : flows.find? c.flowId = some g) (hd : g.definition.document = d)
    (ht : c.Turn policy flows c') : c'.Routed d entry := by
  have hc : c.state ≠ .completed := by
    intro hs
    have := ht.running
    rw [hs] at this
    cases this
  cases ht with
  | @moved g' node next branch outcome now hat hl hn =>
    obtain rfl : g' = g := Option.some.inj (hat.version.symm.trans hg)
    obtain ⟨e, he, hnext⟩ := Graph.exists_exit?_of_next? hn
    have hmem := Graph.mem_of_exit? he
    refine ⟨h.lines_log hc _ rfl, fun _ => ?_, nofun⟩
    have hroute : d.Route entry (c.history ++ [⟨c.nodeId, node.action.name, outcome, now⟩])
        e.target := by
      refine .left (h.here hc) (hl.departs _) (hd ▸ hmem.1) (hmem.2.trans hat.nodeId.symm) ?_
      exact fun k hk => h.sat_out hd hwf hat hl he hk
    exact Graph.id_of_node? hnext ▸ hroute
  | @completed g' node branch outcome now hat hl hn =>
    exact ⟨h.lines_log hc _ rfl, fun hs => absurd rfl hs, nofun⟩
  | delayed hat => exact h.stay hc rfl (by simp [Step.Departs, Branch.name]) rfl rfl nofun
  | retried hat => exact h.stay hc rfl (by simp [Step.Departs, Branch.name]) rfl rfl nofun
  | watched hat => exact h.stay hc rfl (by simp [Step.Departs, Branch.name]) rfl rfl fun _ w hw => ⟨rfl, by cases hw; rfl⟩
  | @noted g' node k w e now hat ha hs hw =>
    refine h.congr rfl rfl rfl fun w' hw' => ⟨w, hw, ?_⟩
    obtain rfl := Option.some.inj hw'
    rfl
  | reached hat => exact h.stay hc rfl (by simp [Step.Departs, Branch.name]) rfl rfl nofun
  | failed => exact h.stay hc rfl (by simp [Step.Departs, Branch.name]) rfl rfl nofun

end Cursor

end MailCampaign
