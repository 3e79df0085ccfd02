import MailCampaign.Engine.Host
import MailCampaign.Proofs.World.Course

/-!
# What the journal rebuilds

Each small step of a world writes at most one entry for a flow or a cursor, and such an entry holds
the whole value. So the journal up to now rebuilds the flows and cursors as they are, and the journal
up to any entry before rebuilds them as they were after some step, in a sound world.
-/

namespace MailCampaign

/-! ## Entries of a trace -/

theorem journaled_cons_entry (e : Entry) (trace : List Effect) :
    journaled (.entry e :: trace) = journaled trace ++ [e] := by
  unfold journaled
  rw [List.reverse_cons, List.filterMap_append]
  rfl

theorem journaled_cons_activity (a : Activity) (trace : List Effect) :
    journaled (.activity a :: trace) = journaled trace := by
  unfold journaled
  rw [List.reverse_cons, List.filterMap_append]
  exact List.append_nil _

theorem journaled_cons_submission (s : Submission) (trace : List Effect) :
    journaled (.submission s :: trace) = journaled trace := by
  unfold journaled
  rw [List.reverse_cons, List.filterMap_append]
  exact List.append_nil _

/-- An entry that concerns neither flows nor cursors. -/
def Entry.Quiet : Entry → Prop
  | .flow _ | .cursor _ => False
  | _ => True

namespace World

theorem replayAll_concat (w : World) (l : List Entry) (e : Entry) :
    w.replayAll (l ++ [e]) = (w.replayAll l).replay e := by
  unfold replayAll
  rw [List.foldl_append]
  rfl

/-- Whatever is replayed, the timers are exact. -/
theorem timersExact_replayAll {w : World} (h : w.cursors.TimersExact) (l : List Entry) :
    (w.replayAll l).cursors.TimersExact := by
  induction l generalizing w with
  | nil => exact h
  | cons e rest ih =>
    refine ih (w := w.replay e) ?_
    cases e with
    | cursor c =>
      unfold replay
      dsimp only
      split
      · exact h.put c
      · exact h
    | _ => exact h

/-! ## Rebuilt worlds -/

/-- A world with the flows and cursors of another. -/
structure Mirrors (v w : World) : Prop where
  flows : ∀ id, v.flows.find? id = w.flows.find? id
  cursors : ∀ key, v.cursors.find? key = w.cursors.find? key

theorem Mirrors.sound {v w : World} (h : v.Mirrors w) (hw : w.Sound) : v.Sound := by
  intro key c hc
  rw [h.cursors] at hc
  refine (hw key c hc).mono fun id g hg => ?_
  rw [h.flows]
  exact hg

variable {r w v base : World} {policy : RetryPolicy} {scope : Scope}

theorem Mirrors.replay_quiet (h : r.Mirrors w) {e : Entry} (he : e.Quiet) :
    (r.replay e).Mirrors w := by
  cases e with
  | flow => exact he.elim
  | cursor => exact he.elim
  | _ => exact ⟨h.flows, h.cursors⟩

theorem Mirrors.replay_flow (h : r.Mirrors w) {g : Graph}
    (hf : ∀ id, v.flows.find? id = if id = g.id then some g else w.flows.find? id)
    (hc : v.cursors = w.cursors) : (r.replay (.flow g.definition)).Mirrors v where
  flows := by
    intro id
    show (r.flows.accept g.definition).find? id = _
    rw [FlowStore.find?_accept, hf, h.flows]
  cursors := by
    intro key
    rw [hc]
    exact h.cursors key

/-- An entry for a cursor of a known version replaces the cursor. -/
theorem Mirrors.replay_cursor (h : r.Mirrors w) {c : Cursor} {g : Graph}
    (hg : w.flows.find? c.flowId = some g) (hf : v.flows = w.flows)
    (hc : ∀ key, v.cursors.find? key = if key = c.key then some c else w.cursors.find? key) :
    (r.replay (.cursor c)).Mirrors v := by
  have hknown : knowsFlow r.flows c = true := by
    unfold knowsFlow
    rw [h.flows, hg]
    rfl
  unfold replay
  dsimp only
  rw [if_pos hknown]
  refine ⟨fun id => ?_, fun key => ?_⟩
  · rw [hf]
    exact h.flows id
  · rw [hc, ← h.cursors]
    exact r.cursors.find?_put c key

/-! ## Every prefix of the journal -/

/-- The journal so far rebuilds the flows and cursors of a world on a base, and each of its prefixes
rebuilds a sound world. -/
structure Chronicled (w base : World) : Prop where
  mirrors : (base.replayAll (journaled w.trace)).Mirrors w
  sound : ∀ l, l <+: journaled w.trace → (base.replayAll l).Sound

/-- Before anything is written down, the base is like the world. -/
theorem Chronicled.start (hb : base.Mirrors w) (hw : w.Sound) (ht : journaled w.trace = []) :
    w.Chronicled base where
  mirrors := by
    rw [ht]
    exact hb
  sound := by
    intro l hl
    rw [ht] at hl
    rw [List.prefix_nil.1 hl]
    exact hb.sound hw

theorem Chronicled.congr (h : w.Chronicled base) (hf : v.flows = w.flows)
    (hc : v.cursors = w.cursors) (ht : journaled v.trace = journaled w.trace) :
    v.Chronicled base where
  mirrors := by
    rw [ht]
    exact ⟨fun id => hf ▸ h.mirrors.flows id, fun key => hc ▸ h.mirrors.cursors key⟩
  sound := ht ▸ h.sound

/-- One more entry. -/
theorem Chronicled.write (h : w.Chronicled base) {e : Entry} (hv : v.Sound)
    (ht : journaled v.trace = journaled w.trace ++ [e])
    (hm : ∀ r : World, r.Mirrors w → (r.replay e).Mirrors v) : v.Chronicled base := by
  have hmirrors : (base.replayAll (journaled v.trace)).Mirrors v := by
    rw [ht, replayAll_concat]
    exact hm _ h.mirrors
  refine ⟨hmirrors, fun l hl => ?_⟩
  rw [ht] at hl
  rcases List.prefix_concat_iff.1 hl with rfl | hl
  · rw [← ht]
    exact hmirrors.sound hv
  · exact h.sound l hl

/-- One more entry for something else. -/
theorem Chronicled.write_quiet (h : w.Chronicled base) {e : Entry} (hv : v.Sound)
    (ht : journaled v.trace = journaled w.trace ++ [e]) (he : e.Quiet) (hf : v.flows = w.flows)
    (hc : v.cursors = w.cursors) : v.Chronicled base := by
  refine h.write hv ht fun r hr => ?_
  have hq := hr.replay_quiet he
  exact ⟨fun id => hf ▸ hq.flows id, fun key => hc ▸ hq.cursors key⟩

/-- Storing a cursor of a sound world writes it down as a whole. -/
theorem Chronicled.storeCursor (h : w.Chronicled base) {c d : Cursor}
    (hv : (w.storeCursor c d).Sound) : (w.storeCursor c d).Chronicled base := by
  obtain ⟨g, node, hat, -⟩ := (hv d.key d (by rw [find?_storeCursor, if_pos rfl])).placed
  exact h.write hv (journaled_cons_entry _ _) fun r hr =>
    hr.replay_cursor hat.version rfl (find?_storeCursor w c d)

/-- Bookkeeping writes quiet entries. -/
theorem Chronicled.booked (h : w.Chronicled base) (hw : w.Sound) (hb : w.Booked v) :
    v.Chronicled base := by
  obtain ⟨l, hl, hminor⟩ := hb.trace
  have hall : ({ w with trace := l ++ w.trace } : World).Chronicled base := by
    clear hl
    induction l with
    | nil => exact h
    | cons e rest ih =>
      have hrest := ih fun e he => hminor e (List.mem_cons_of_mem _ he)
      cases hminor e List.mem_cons_self with
      | activity a => exact hrest.congr rfl rfl (journaled_cons_activity _ _)
      | _ => exact hrest.write_quiet hw (journaled_cons_entry _ _) trivial rfl rfl
  exact hall.congr hb.flows hb.cursors (by rw [hl])

/-- Every small step of a sound world is written down. -/
theorem Shift.chronicled (h : w.Shift policy scope v) (hw : w.Sound) (hc : w.Chronicled base) :
    v.Chronicled base := by
  have hv := h.sound hw
  cases h with
  | turn => exact hc.storeCursor hv
  | canceled => exact hc.storeCursor hv
  | counted => exact hc.storeCursor hv
  | kept => exact hc.storeCursor hv
  | entered id campaign now nextId leads _ hg _ =>
    exact hc.write hv (journaled_cons_entry _ _) fun r hr =>
      hr.replay_cursor hg rfl (w.cursors.find?_addNew _)
  | activated nextId ha _ =>
    exact hc.write hv (journaled_cons_entry _ _) fun r hr =>
      hr.replay_flow (FlowStore.find?_activate ha) rfl
  | status => exact hc.write_quiet hv (journaled_cons_entry _ _) trivial rfl rfl
  | booked hb => exact hc.booked hw hb
  | mailed s => exact hc.congr rfl rfl (journaled_cons_submission _ _)

end World

end MailCampaign
