import MailCampaign.Proofs.Flow.Order
import MailCampaign.Proofs.World.Rebuild

/-!
# Cursors with all they refer to

A world is furnished when the version, the campaign and the lead of each of its cursors are known in
it. Postings preserve that. A journal that is cut off rebuilds a furnished world too, but for one
place: a new cursor is written before the profile of its lead, so that the profile may be missing
right behind the entry of the cursor.
-/

namespace MailCampaign.World

variable {w v u : World} {prunes : Prop} {entries done : List Entry} {c : Cursor}

/-- The version and the campaign of a cursor are known. -/
structure Placed (w : World) (c : Cursor) : Prop where
  version : (w.at? (.flow c.flowId)).isSome = true
  campaign : (w.at? (.campaign c.campaignId)).isSome = true

/-- All that the cursors of a world refer to is known. -/
structure Furnished (w : World) : Prop where
  placed : ∀ key c, w.cursors.find? key = some c → w.Placed c
  leads : ∀ key c, w.cursors.find? key = some c → (w.at? (.lead c.leadId)).isSome = true
  /-- A campaign with versions is known. -/
  opened : ∀ campaign, w.flows.history campaign ≠ [] → (w.at? (.campaign campaign)).isSome = true

theorem furnished_empty (n : Nat) : (empty n).Furnished where
  placed := fun _ _ h => by cases h
  leads := fun _ _ h => by cases h
  opened := fun _ h => absurd rfl h

theorem Placed.mono (h : w.Placed c)
    (hv : ∀ s : Slot, ¬ s.Fleeting → (w.at? s).isSome = true → (v.at? s).isSome = true) :
    v.Placed c := ⟨hv _ id h.version, hv _ id h.campaign⟩

/-- A campaign has versions only if it had some before or its status is written now. -/
theorem Posting.history_cases (h : w.Posting prunes entries v) {campaign : Uuid}
    (hv : v.flows.history campaign ≠ []) :
    w.flows.history campaign ≠ [] ∨ (written entries (.campaign campaign)).isSome = true := by
  cases h with
  | ended _ hd =>
    rw [countOutcome_of_terminal _ _ hd.terminal] at hv
    exact .inl hv
  | @activated id campaign' document now flows g nextId ha =>
    by_cases hc : campaign = campaign'
    · right
      simp [Entry.datum?, hc]
    · left
      have hhistory := FlowStore.history_activate ha campaign
      rw [if_neg hc] at hhistory
      exact hhistory ▸ hv
  | _ => exact .inl hv

/-- What a written cursor refers to was known before, but for the lead of a new cursor. -/
theorem Furnished.entry (hw : w.Furnished) (h : w.Posting prunes entries v)
    (hc : .cursor c ∈ entries) :
    w.Placed c ∧ ((w.at? (.lead c.leadId)).isSome = true ∨
      ∃ lead totals, c.state = .pending ∧ lead.id = c.leadId ∧
        entries = [.cursor c, .lead lead, .stats c.campaignId totals none none]) := by
  rcases h.cursor_cases hc with ⟨b, hb, hsame⟩ | ⟨g, lead, totals, hs, hlead, hid, hg, he⟩
  · have hflow : c.flowId = b.flowId := congrArg CursorKey.flowId hsame.key
    have hlead : c.leadId = b.leadId := congrArg CursorKey.leadId hsame.key
    have hplaced := hw.placed _ b hb
    exact ⟨⟨hflow ▸ hplaced.version, hsame.campaignId ▸ hplaced.campaign⟩,
      .inl (hlead ▸ hw.leads _ b hb)⟩
  · obtain ⟨id, hlast, hfind⟩ := Option.bind_eq_some_iff.1 hg
    refine ⟨⟨?_, hw.opened _ fun hnil => ?_⟩, .inr ⟨lead, totals, hs, hlead, he⟩⟩
    · rw [← hid, FlowStore.id_eq_of_find? hfind, World.at?, hfind]
      rfl
    · rw [hnil] at hlast
      cases hlast

theorem Posting.furnished (h : w.Posting prunes entries v) (hw : w.Furnished) : v.Furnished where
  placed := by
    intro key c hc
    refine Placed.mono ?_ fun s hs => h.lasts hs
    rcases h.cursor_origin hc with hold | hnew
    · exact hw.placed key c hold
    · exact (hw.entry h hnew).1
  leads := by
    intro key c hc
    rcases h.cursor_origin hc with hold | hnew
    · exact h.lasts id (hw.leads key c hold)
    · rcases (hw.entry h hnew).2 with hlead | ⟨lead, totals, -, hid, rfl⟩
      · exact h.lasts id hlead
      · rcases h.fills (.lead c.leadId) with hv | ⟨-, hf, -⟩
        · rw [hv]
          simp [Entry.datum?, hid]
        · exact hf.elim
  opened := by
    intro campaign hv
    rcases h.history_cases hv with hold | hwritten
    · exact h.lasts id (hw.opened campaign hold)
    · rcases h.fills (.campaign campaign) with hv | ⟨-, hf, -⟩
      · rw [hv, Option.isSome_or, hwritten, Bool.true_or]
      · exact hf.elim

theorem Postings.furnished (h : w.Postings prunes v) (hw : w.Furnished) : v.Furnished :=
  h.preserves hw fun _ _ _ h => h.furnished

/-! ## Journals that are cut off -/

/-- A world with the slots of a furnished one and what is done of a posting on top knows all that
its cursors refer to, but for the profile of a lead whose cursor is all that is done. -/
theorem Furnished.cut {r : World} {rest : List Entry} (hw : u.Furnished) (h : u.Begun done rest)
    (hr : ∀ s : Slot, ¬ s.Fleeting → r.at? s = (written done s).or (u.at? s)) {key : CursorKey}
    (hc : r.cursors.find? key = some c) :
    r.Placed c ∧ ((r.at? (.lead c.leadId)).isSome = true ∨
      c.state = .pending ∧ done = [.cursor c] ∧
        ∃ lead, lead.id = c.leadId ∧ [.lead lead] <+: rest) := by
  have hknown : ∀ s : Slot, ¬ s.Fleeting → (u.at? s).isSome = true → (r.at? s).isSome = true := by
    intro s hs hx
    rw [hr s hs, Option.isSome_or, hx, Bool.or_true]
  have hslot : (written done (.cursor key)).or (u.at? (.cursor key)) = some (.cursor c) := by
    rw [← hr _ id, World.at?, hc]
    rfl
  rcases Option.or_eq_some_iff.1 hslot with hnew | ⟨-, hold⟩
  · obtain ⟨d, he, -, hd⟩ := written_cursor hnew
    obtain rfl := Datum.cursor.inj he
    cases h with
    | nothing => cases hd
    | posting h =>
      obtain ⟨hplaced, hlead⟩ := hw.entry h (List.mem_append_left rest hd)
      refine ⟨hplaced.mono hknown, ?_⟩
      rcases hlead with hlead | ⟨lead, totals, hs, hid, he⟩
      · exact .inl (hknown _ id hlead)
      · -- Only the cursor is there, or the profile is there as well.
        rcases done with _ | ⟨e, _ | ⟨e', more⟩⟩
        · cases hd
        · obtain ⟨rfl, rfl⟩ : e = .cursor c ∧ rest = _ := by simpa using he
          exact .inr ⟨hs, rfl, lead, hid, List.prefix_append [Entry.lead lead] [_]⟩
        · left
          obtain ⟨-, rfl, -⟩ : e = .cursor c ∧ e' = .lead lead ∧ _ := by simpa using he
          rw [hr _ id, Option.isSome_or, written_cons, written_cons]
          simp [Entry.datum?, hid]
  · obtain ⟨b, hb, he⟩ := Option.map_eq_some_iff.1 hold
    obtain rfl := Datum.cursor.inj he
    exact ⟨(hw.placed key b hb).mono hknown, .inl (hknown _ id (hw.leads key b hb))⟩

end MailCampaign.World
