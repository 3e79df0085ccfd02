import MailCampaign.Proofs.World.Slot

/-!
# What entries rebuild

Entries rebuild a world on a base when they leave in each slot what the world has there. A fleeting
slot may keep more, as pruning is not written down. Postings preserve this, as each one adds to the
entries what it does to the world. A journal may also be cut off within a posting; then the world
before that posting is rebuilt, with some of the entries of the posting on top.
-/

namespace MailCampaign

/-- A cursor that was written last stands in the entries under its key. -/
theorem written_cursor {l : List Entry} {key : CursorKey} {x : Datum}
    (h : written l (.cursor key) = some x) :
    ∃ c, x = .cursor c ∧ c.key = key ∧ .cursor c ∈ l := by
  induction l with
  | nil => cases h
  | cons e rest ih =>
    rw [written_cons] at h
    cases hr : written rest (.cursor key) with
    | some y =>
      rw [hr] at h
      obtain ⟨c, hx, hkey, hc⟩ := ih (hr.trans h)
      exact ⟨c, hx, hkey, List.mem_cons_of_mem _ hc⟩
    | none =>
      rw [hr, Option.none_or] at h
      cases e with
      | cursor c =>
        rw [Entry.datum?] at h
        split at h
        · next hk => exact ⟨c, (Option.some.inj h).symm, hk.symm, List.mem_cons_self⟩
        · cases h
      | _ => cases h

namespace World

variable {w v u r r' : World} {prunes : Prop} {entries l l' : List Entry} {s : Slot}

/-! ## Slots along postings -/

/-- What is known in a slot stays known, unless it is fleeting. -/
theorem Posting.lasts (h : w.Posting prunes entries v) (hs : ¬ s.Fleeting)
    (hx : (w.at? s).isSome = true) : (v.at? s).isSome = true := by
  rcases h.fills s with hv | ⟨-, hf, -⟩
  · rw [hv, Option.isSome_or, hx, Bool.or_true]
  · exact absurd hf hs

/-- The version of every cursor is known. -/
def Versioned (w : World) : Prop :=
  ∀ key c, w.cursors.find? key = some c → (w.at? (.flow c.flowId)).isSome = true

/-- A cursor is written as the new form of a stored one, or as a new one with the profile of its
lead and the totals behind it. -/
theorem Posting.cursor_cases (h : w.Posting prunes entries v) {c : Cursor}
    (hc : Entry.cursor c ∈ entries) :
    (∃ b, w.cursors.find? c.key = some b ∧ b.SameLead c) ∨
      ∃ g lead totals, c.state = .pending ∧ lead.id = c.leadId ∧ g.id = c.flowId ∧
        w.flows.active? c.campaignId = some g ∧
        entries = [.cursor c, .lead lead, .stats c.campaignId totals none none] := by
  cases h with
  | rewritten hb hd =>
    obtain rfl := Entry.cursor.inj (List.mem_singleton.1 hc)
    exact .inl ⟨_, hd.sameLead.key ▸ hb, hd.sameLead⟩
  | ended hb hd =>
    obtain rfl : c = _ := by simpa using hc
    exact .inl ⟨_, hd.sameLead.key ▸ hb, hd.sameLead⟩
  | @enrolled g campaign lead id now nextId hg hn =>
    obtain rfl : c = _ := by simpa using hc
    exact .inr ⟨g, lead, _, rfl, rfl, rfl, hg, rfl⟩
  | _ => simp at hc

theorem Posting.versioned_entry (h : w.Posting prunes entries v) (hw : w.Versioned) {c : Cursor}
    (hc : Entry.cursor c ∈ entries) : (w.at? (.flow c.flowId)).isSome = true := by
  rcases h.cursor_cases hc with ⟨b, hb, hsame⟩ | ⟨g, -, -, -, -, hid, hg, -⟩
  · have hflow : c.flowId = b.flowId := congrArg CursorKey.flowId hsame.key
    rw [hflow]
    exact hw _ b hb
  · obtain ⟨id, -, hfind⟩ := Option.bind_eq_some_iff.1 hg
    rw [← hid, FlowStore.id_eq_of_find? hfind, World.at?, hfind]
    rfl

/-- What is in a slot after a posting was written by it or was there before. -/
theorem Posting.origin (h : w.Posting prunes entries v) {x : Datum} (hx : v.at? s = some x) :
    (written entries s).or (w.at? s) = some x := by
  rcases h.fills s with hv | ⟨-, -, hnone⟩
  · exact hv.symm.trans hx
  · rw [hnone] at hx
    cases hx

/-- What is there after postings was written down by them or was there before. -/
theorem Postings.origin (h : w.Postings prunes v) :
    ∃ more, journaled v.trace = journaled w.trace ++ more ∧
      ∀ s x, v.at? s = some x → (written more s).or (w.at? s) = some x := by
  refine h.preserves ⟨[], by simp, fun s x hx => hx⟩ ?_
  rintro u entries v h ⟨more, htrace, hu⟩
  exact ⟨more ++ entries, by rw [h.journaled_eq, htrace, List.append_assoc],
    fun s x hx => written_append_or (h.origin hx) (hu s x)⟩

/-- A cursor after a posting was there before, or the posting has written it. -/
theorem Posting.cursor_origin (h : w.Posting prunes entries v) {key : CursorKey} {c : Cursor}
    (hc : v.cursors.find? key = some c) :
    w.cursors.find? key = some c ∨ .cursor c ∈ entries := by
  have hslot : v.at? (.cursor key) = some (.cursor c) := by rw [World.at?, hc]; rfl
  rcases Option.or_eq_some_iff.1 (h.origin hslot) with hnew | ⟨-, hold⟩
  · obtain ⟨d, he, -, hd⟩ := written_cursor hnew
    exact .inr (Datum.cursor.inj he ▸ hd)
  · obtain ⟨b, hb, he⟩ := Option.map_eq_some_iff.1 hold
    exact .inl (Datum.cursor.inj he ▸ hb)

theorem Posting.versioned (h : w.Posting prunes entries v) (hw : w.Versioned) : v.Versioned := by
  intro key c hc
  refine h.lasts id ?_
  rcases h.cursor_origin hc with hold | hnew
  · exact hw key c hold
  · exact h.versioned_entry hw hnew

/-! ## Rebuilding -/

/-- A list of entries rebuilds a world on a base. -/
structure Rebuilds (r : World) (l : List Entry) (w : World) : Prop where
  grounds : r.Grounds l
  lasting : ∀ s : Slot, ¬ s.Fleeting → (written l s).or (r.at? s) = w.at? s
  fleeting : ∀ s x, w.at? s = some x → (written l s).or (r.at? s) = some x

/-- A base that has a world in its slots needs no entries. -/
theorem rebuilds_nil (h : ∀ s, r.at? s = w.at? s) : r.Rebuilds [] w where
  grounds := by
    intro l c h
    have hlength := h.length_le
    simp at hlength
  lasting := fun s _ => Option.none_or.trans (h s)
  fleeting := fun s _ hx => Option.none_or.trans ((h s).trans hx)

theorem rebuilds_empty (n m : Nat) : (empty n).Rebuilds [] (empty m) :=
  rebuilds_nil fun s => by rw [at?_empty, at?_empty]

/-- Replaying the entries on the base leaves what lasts as it is in the rebuilt world. -/
theorem Rebuilds.at?_replayAll (h : r.Rebuilds l w) (hs : ¬ s.Fleeting) :
    (r.replayAll l).at? s = w.at? s :=
  (World.at?_replayAll h.grounds s).trans (h.lasting s hs)

/-- What is written in a slot is what the world has there, if it has not been pruned. -/
theorem Rebuilds.upheld (h : r.Rebuilds l w) {x : Datum} (hx : written l s = some x) :
    w.at? s = some x ∨ s.Fleeting ∧ w.at? s = none := by
  by_cases hs : s.Fleeting
  · cases hw : w.at? s with
    | none => exact .inr ⟨hs, rfl⟩
    | some y =>
      have hy := h.fleeting s y hw
      rw [hx, Option.some_or] at hy
      exact .inl hy.symm
  · rw [← h.lasting s hs, hx, Option.some_or]
    exact .inl rfl

/-- The versions of the cursors among the entries are known. -/
theorem Rebuilds.version_known (h : r.Rebuilds l w) {c : Cursor} (hc : .cursor c ∈ l) :
    (w.at? (.flow c.flowId)).isSome = true := by
  obtain ⟨before, after, rfl⟩ := List.append_of_mem hc
  have hpart : before ++ [.cursor c] <+: before ++ .cursor c :: after :=
    (List.prefix_append_right_inj before).2 (List.prefix_append [Entry.cursor c] after)
  have hknown := h.grounds before c hpart
  rw [← h.lasting (.flow c.flowId) not_false, Option.isSome_or, Bool.or_eq_true]
  rw [Option.isSome_or, Bool.or_eq_true] at hknown
  exact hknown.imp_left (isSome_written (List.prefix_append before _))

/-- On a base that has the world in its slots, some of the entries rebuild the world again, if what is
last among them is what was last among all. -/
theorem Rebuilds.rebase (h : r.Rebuilds l w) (hbase : ∀ s, r'.at? s = w.at? s) (hl : l' ⊆ l)
    (hlast : ∀ s x, written l' s = some x → written l s = some x) : r'.Rebuilds l' w where
  grounds := by
    intro l₀ c hpart
    rw [hbase, Option.isSome_or, h.version_known (hl (hpart.subset (by simp))), Bool.or_true]
  lasting := by
    intro s hs
    cases hx : written l' s with
    | none => rw [hbase, Option.none_or]
    | some x =>
      rcases h.upheld (hlast s x hx) with hw | ⟨hf, -⟩
      · rw [hw, Option.some_or]
      · exact absurd hf hs
  fleeting := by
    intro s x hw
    cases hy : written l' s with
    | none => rw [hbase, Option.none_or, hw]
    | some y =>
      rcases h.upheld (hlast s y hy) with hw' | ⟨-, hnone⟩
      · rw [Option.some_or, ← hw', hw]
      · rw [hnone] at hw
        cases hw

/-- A posting adds to the entries what it does to the world. -/
theorem Posting.rebuilds (h : w.Posting prunes entries v) (hr : r.Rebuilds l w)
    (hw : w.Versioned) : r.Rebuilds (l ++ entries) v where
  grounds := hr.grounds.append fun c hc => by
    rw [hr.lasting (.flow c.flowId) id]
    exact h.versioned_entry hw hc
  lasting := by
    intro s hs
    rcases h.fills s with hv | ⟨-, hf, -⟩
    · rw [hv, written_append, Option.or_assoc, hr.lasting s hs]
    · exact absurd hf hs
  fleeting := fun s x hx => written_append_or (h.origin hx) (hr.fleeting s x)

/-- What postings add to the journal rebuilds the world after them on top of what rebuilds the world
before. -/
theorem Postings.rebuilds (h : w.Postings prunes v) (hr : r.Rebuilds l w) (hw : w.Versioned) :
    ∃ more, journaled v.trace = journaled w.trace ++ more ∧ r.Rebuilds (l ++ more) v := by
  suffices (∃ more, journaled v.trace = journaled w.trace ++ more ∧ r.Rebuilds (l ++ more) v) ∧
      v.Versioned from this.1
  refine h.preserves ⟨⟨[], by simp, by simpa using hr⟩, hw⟩ ?_
  rintro u entries v h ⟨⟨more, htrace, hu⟩, hversioned⟩
  refine ⟨⟨more ++ entries, ?_, ?_⟩, h.versioned hversioned⟩
  · rw [h.journaled_eq, htrace, List.append_assoc]
  · rw [← List.append_assoc]
    exact h.rebuilds hu hversioned

theorem versioned_empty (n : Nat) : (empty n).Versioned := fun _ _ h => by cases h

/-- The whole journal rebuilds a world that comes from the empty one by postings. -/
theorem rebuilds_journaled {m : Nat} (h : (empty m).Postings prunes w) (n : Nat) :
    (empty n).Rebuilds (journaled w.trace) w := by
  obtain ⟨more, htrace, hr⟩ := h.rebuilds (rebuilds_empty n m) (versioned_empty m)
  rw [htrace]
  exact hr

/-! ## Journals that are cut off -/

/-- Nothing is begun in a world, or some entries of a posting are done and the rest is to come. -/
inductive Begun (w : World) : List Entry → List Entry → Prop
  | nothing : Begun w [] []
  | posting {done rest : List Entry} {x : World} : w.Posting True (done ++ rest) x →
      Begun w done rest

/-- A journal is cut off between two postings or within one. -/
theorem Postings.cut (h : w.Postings True v) (hw : journaled w.trace <+: l)
    (hl : l <+: journaled v.trace) :
    ∃ u done rest, w.Postings True u ∧ u.Begun done rest ∧ l = journaled u.trace ++ done ∧
      l ++ rest <+: journaled v.trace := by
  induction h with
  | refl =>
    obtain rfl := hl.eq_of_length_le hw.length_le
    exact ⟨w, [], [], .refl, .nothing, (List.append_nil _).symm, by simp⟩
  | @tail u v hu h ih =>
    obtain ⟨entries, h⟩ := h
    have hgrows := h.single.journal_grows
    rw [h.journaled_eq] at hl
    rcases List.prefix_or_prefix_of_prefix hl (List.prefix_append _ entries) with hold | ⟨done, rfl⟩
    · obtain ⟨u', done, rest, hu', hbegun, he, hrest⟩ := ih hold
      exact ⟨u', done, rest, hu', hbegun, he, hrest.trans hgrows⟩
    · obtain ⟨rest, rfl⟩ := (List.prefix_append_right_inj _).1 hl
      have he : journaled v.trace = journaled u.trace ++ done ++ rest := by
        rw [h.journaled_eq, List.append_assoc]
      exact ⟨u, done, rest, hu, .posting h, rfl, he ▸ List.prefix_rfl⟩

/-- A part of a journal from its start rebuilds a world on the way with the entries on top that are
done of the posting in which it is cut off. -/
theorem Postings.rebuilds_cut {m : Nat} (h : (empty m).Postings True w) (n : Nat)
    (hl : l <+: journaled w.trace) :
    ∃ u done rest, (empty m).Postings True u ∧ u.Begun done rest ∧
      l ++ rest <+: journaled w.trace ∧ (∃ before, l = before ++ done) ∧
      ∀ s : Slot, ¬ s.Fleeting → ((empty n).replayAll l).at? s = (written done s).or (u.at? s) := by
  have hgrounds := (rebuilds_journaled h n).grounds.start hl
  obtain ⟨u, done, rest, hu, hbegun, rfl, hrest⟩ := h.cut (List.nil_prefix (l := l)) hl
  refine ⟨u, done, rest, hu, hbegun, hrest, ⟨_, rfl⟩, fun s hs => ?_⟩
  rw [at?_replayAll hgrounds, written_append, Option.or_assoc,
    (rebuilds_journaled hu n).lasting s hs]

end World

end MailCampaign
