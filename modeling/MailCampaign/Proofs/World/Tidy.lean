import MailCampaign.Proofs.Cursor.Index
import MailCampaign.Proofs.Flow.Order
import MailCampaign.Proofs.World.Rebuild

/-!
# Tidy worlds

A world is tidy when its lists agree with what they list: the histories of campaigns with the
versions, the timers and the lists of leads with the cursors, and the profiles with the ids of their
leads. Postings preserve that. Neither do they change a version, so the versions in a journal are
those of the world.
-/

namespace MailCampaign.World

variable {w v r : World} {prunes : Prop} {entries l : List Entry} {d : Definition} {id : Uuid}
  {g : Graph}

/-- A world whose lists agree with what they list. -/
structure Tidy (w : World) : Prop where
  listed : w.flows.Listed
  numbered : w.flows.Numbered
  indexed : w.cursors.Indexed
  leads : w.leads.Keyed Lead.id
  versioned : w.Versioned

theorem tidy_empty (n : Nat) : (empty n).Tidy where
  listed := FlowStore.listed_empty
  numbered := FlowStore.numbered_empty
  indexed := CursorStore.indexed_empty
  leads := Table.keyed_empty _
  versioned := versioned_empty n

theorem Posting.indexed (h : w.Posting prunes entries v) (hw : w.cursors.Indexed) :
    v.cursors.Indexed := by
  cases h with
  | rewritten hc hd => exact hw.amend hc hd.sameLead.key hd.sameLead.id
  | ended hc hd =>
    rw [countOutcome_of_terminal _ _ hd.terminal]
    exact hw.amend hc hd.sameLead.key hd.sameLead.id
  | enrolled id now nextId hg hn => exact hw.addNew hn
  | _ => exact hw

theorem Posting.leads_keyed (h : w.Posting prunes entries v) (hw : w.leads.Keyed Lead.id) :
    v.leads.Keyed Lead.id := by
  cases h with
  | ended hc hd =>
    rw [countOutcome_of_terminal _ _ hd.terminal]
    exact hw
  | enrolled => exact hw.insert _
  | _ => exact hw

theorem Posting.numbered (h : w.Posting prunes entries v)
    (hw : w.flows.Listed ∧ w.flows.Numbered) : v.flows.Listed ∧ v.flows.Numbered := by
  cases h with
  | ended hc hd =>
    rw [countOutcome_of_terminal _ _ hd.terminal]
    exact hw
  | activated nextId ha hfresh =>
    exact ⟨hw.1.activate ha hfresh, hw.2.activate hw.1 ha hfresh⟩
  | _ => exact hw

theorem Posting.tidy (h : w.Posting prunes entries v) (hw : w.Tidy) : v.Tidy where
  listed := (h.numbered ⟨hw.listed, hw.numbered⟩).1
  numbered := (h.numbered ⟨hw.listed, hw.numbered⟩).2
  indexed := h.indexed hw.indexed
  leads := h.leads_keyed hw.leads
  versioned := h.versioned hw.versioned

theorem Postings.tidy (h : w.Postings prunes v) (hw : w.Tidy) : v.Tidy :=
  h.preserves hw fun _ _ _ h => h.tidy

/-! ## Versions -/

/-- A definition is that of a stored version. -/
def HasVersion (w : World) (d : Definition) : Prop :=
  ∃ g, g.definition = d ∧ w.flows.find? g.id = some g

/-- A version is never changed. -/
theorem Posting.version_kept (h : w.Posting prunes entries v) (hg : w.flows.find? id = some g) :
    v.flows.find? id = some g := by
  cases h with
  | ended hc hd =>
    rw [countOutcome_of_terminal _ _ hd.terminal]
    exact hg
  | @activated id' campaign document now flows g' nextId ha hfresh =>
    show flows.find? id = some g
    rw [FlowStore.find?_activate ha, if_neg]
    · exact hg
    · rintro rfl
      rw [FlowStore.id_of_activate ha, hfresh] at hg
      cases hg
  | _ => exact hg

theorem Posting.hasVersion (h : w.Posting prunes entries v) (hd : w.HasVersion d) :
    v.HasVersion d := by
  obtain ⟨g, hdef, hg⟩ := hd
  exact ⟨g, hdef, h.version_kept hg⟩

theorem Postings.hasVersion (h : w.Postings prunes v) (hd : w.HasVersion d) : v.HasVersion d :=
  h.preserves hd fun _ _ _ h => h.hasVersion

/-- A version that is written is stored. -/
theorem Posting.hasVersion_entry (h : w.Posting prunes entries v) (hd : .flow d ∈ entries) :
    v.HasVersion d := by
  cases h with
  | @activated id campaign document now flows g nextId ha =>
    obtain rfl : d = g.definition := by simpa using hd
    refine ⟨g, rfl, ?_⟩
    show flows.find? g.id = some g
    rw [FlowStore.find?_activate ha, if_pos rfl]
  | _ => simp at hd

/-- The versions in the journal are those of the world. -/
theorem Postings.hasVersion_journaled (h : w.Postings prunes v)
    (hw : ∀ d, .flow d ∈ journaled w.trace → w.HasVersion d) :
    ∀ d, .flow d ∈ journaled v.trace → v.HasVersion d := by
  refine h.preserves hw fun u entries v h ih d hd => ?_
  rw [h.journaled_eq, List.mem_append] at hd
  exact hd.elim (fun hold => h.hasVersion (ih d hold)) h.hasVersion_entry

end MailCampaign.World
