import MailCampaign.Flow.Store
import Mathlib.Data.List.Perm.Basic
import Mathlib.Data.List.Nodup

/-!
# The order of versions

An activation puts its version behind the others of the campaign and gives it the next number. Taking
versions in puts them in ascending order of their numbers instead. Both keep the lists of campaigns in
agreement with the stored versions, so as long as the numbers of a campaign do not start over, its
versions are listed in the same order in either way.
-/

namespace MailCampaign.FlowStore

variable {s t : FlowStore} {id campaign : Uuid} {document : Document} {now : Instant} {g : Graph}

theorem history_activate (h : s.activate id campaign document now = .ok (t, g)) (campaign' : Uuid) :
    t.history campaign' =
      if campaign' = campaign then s.history campaign ++ [g.id] else s.history campaign' := by
  obtain ⟨-, rfl⟩ := activate_eq_ok_iff.1 h
  unfold history
  rw [Table.find?_insert]
  split <;> rfl

/-- An activated version belongs to its campaign and has the next number. -/
theorem labels_activate (h : s.activate id campaign document now = .ok (t, g)) :
    g.campaignId = campaign ∧ g.version = s.nextVersion campaign := by
  have hdefinition := (Graph.compile_eq_ok_iff.1 (activate_eq_ok_iff.1 h).1).1
  rw [Graph.campaignId, Graph.version, hdefinition]
  exact ⟨rfl, rfl⟩

/-- The campaign of a version is its own, and every version is in the list of its campaign, once. -/
structure Listed (s : FlowStore) : Prop where
  nodup : ∀ campaign, (s.history campaign).Nodup
  mem_iff : ∀ campaign id, id ∈ s.history campaign ↔
    ∃ g, s.find? id = some g ∧ g.campaignId = campaign

/-- The number of a stored version. -/
def numberOf (s : FlowStore) (id : Uuid) : UInt32 := s.versionOf (some id)

/-- The versions of every campaign are listed in ascending order of their numbers. -/
def Ascending (s : FlowStore) : Prop :=
  ∀ campaign, (s.history campaign).Pairwise fun a b => s.numberOf a ≤ s.numberOf b

/-- The versions of every campaign are numbered from one on, unless there are so many that their
numbers start over. -/
def Numbered (s : FlowStore) : Prop :=
  ∀ campaign, (s.history campaign).length < 0x100000000 → (s.history campaign).map s.numberOf =
    (List.range (s.history campaign).length).map fun i => UInt32.ofNat (i + 1)

theorem history_empty (campaign : Uuid) : empty.history campaign = [] := rfl

theorem listed_empty : empty.Listed where
  nodup := fun _ => List.nodup_nil
  mem_iff := by simp [history_empty]

theorem ascending_empty : empty.Ascending := fun _ => .nil

theorem numbered_empty : empty.Numbered := fun _ _ => rfl

theorem numberOf_eq (h : s.find? id = some g) : s.numberOf id = g.version := by
  simp [numberOf, versionOf, h]

theorem numberOf_congr (h : t.find? id = s.find? id) : t.numberOf id = s.numberOf id := by
  simp [numberOf, versionOf, h]

/-- A version that may be taken in: its id is new, or it is stored already. -/
def Admits (s : FlowStore) (g : Graph) : Prop := ∀ g', s.find? g.id = some g' → g' = g

/-- An admitted version leaves the stored ones as they are. -/
theorem Admits.find?_kept (h : s.Admits g)
    (hfind : ∀ id, t.find? id = if id = g.id then some g else s.find? id) {g' : Graph}
    (hg : s.find? id = some g') : t.find? id = some g' := by
  rw [hfind]
  split
  · next hid => rw [h g' (hid ▸ hg)]
  · exact hg

/-- The lists stay in agreement with the versions when one more is stored and listed. -/
theorem Listed.stored (h : s.Listed) (hg : s.Admits g)
    (hfind : ∀ id, t.find? id = if id = g.id then some g else s.find? id)
    (hnodup : ∀ campaign, (t.history campaign).Nodup)
    (hmem : ∀ campaign id, id ∈ t.history campaign ↔
      id ∈ s.history campaign ∨ campaign = g.campaignId ∧ id = g.id) : t.Listed := by
  refine ⟨hnodup, fun campaign id => ?_⟩
  rw [hmem, h.mem_iff, hfind]
  by_cases hid : id = g.id
  · subst hid
    rw [if_pos rfl]
    constructor
    · rintro (⟨g', hg', hcampaign⟩ | ⟨hcampaign, -⟩)
      · exact ⟨g, rfl, hg g' hg' ▸ hcampaign⟩
      · exact ⟨g, rfl, hcampaign.symm⟩
    · rintro ⟨g', hg', hcampaign⟩
      obtain rfl := Option.some.inj hg'
      exact .inr ⟨hcampaign.symm, rfl⟩
  · simp [hid]

/-! ## Activating -/

theorem Listed.activate (h : s.Listed) (ha : s.activate id campaign document now = .ok (t, g))
    (hfresh : s.find? id = none) : t.Listed := by
  have hid := id_of_activate ha
  have hnew : s.find? g.id = none := hid ▸ hfresh
  refine h.stored (fun g' hg' => ?_) (find?_activate ha) (fun campaign' => ?_) fun campaign' id' => ?_
  · rw [hnew] at hg'
    cases hg'
  · rw [history_activate ha]
    split
    · refine List.nodup_append.2 ⟨h.nodup campaign, by simp, ?_⟩
      rintro a ha b hb rfl
      obtain ⟨g', hg', -⟩ := (h.mem_iff campaign a).1 ha
      rw [List.mem_singleton.1 hb, hnew] at hg'
      cases hg'
    · exact h.nodup campaign'
  · rw [history_activate ha, (labels_activate ha).1]
    split
    · next hc => simp [hc]
    · next hc => simp [hc]

/-- The next number of a numbered campaign counts its versions. -/
theorem Numbered.nextVersion_eq (h : s.Numbered)
    (hlength : (s.history campaign).length < 0x100000000) :
    s.nextVersion campaign = UInt32.ofNat ((s.history campaign).length + 1) := by
  have hlast := congrArg List.getLast? (h campaign hlength)
  rw [List.getLast?_map, List.getLast?_map, List.getLast?_range] at hlast
  cases hids : (s.history campaign).getLast? with
  | none =>
    rw [List.getLast?_eq_none_iff] at hids
    simp [nextVersion, hids, versionOf]
  | some id =>
    have hpos : (s.history campaign).length ≠ 0 := by
      intro hzero
      rw [List.length_eq_zero_iff.1 hzero] at hids
      cases hids
    rw [hids, if_neg hpos] at hlast
    have hnumber : s.numberOf id = UInt32.ofNat (s.history campaign).length := by
      refine (Option.some.inj hlast).trans (congrArg UInt32.ofNat ?_)
      omega
    rw [nextVersion, hids, ← numberOf, hnumber, UInt32.ofNat_add]
    rfl

theorem Numbered.activate (h : s.Numbered) (hs : s.Listed)
    (ha : s.activate id campaign document now = .ok (t, g)) (hfresh : s.find? id = none) :
    t.Numbered := by
  have hid := id_of_activate ha
  have hold : ∀ campaign', (s.history campaign').map t.numberOf =
      (s.history campaign').map s.numberOf := by
    intro campaign'
    refine List.map_congr_left fun a hmem => numberOf_congr ?_
    obtain ⟨g', hg', -⟩ := (hs.mem_iff campaign' a).1 hmem
    rw [find?_activate ha, if_neg]
    rintro rfl
    rw [hid, hfresh] at hg'
    cases hg'
  intro campaign' hlength
  rw [history_activate ha] at hlength ⊢
  split at hlength
  · next hc =>
    rw [if_pos hc]
    rw [List.length_append, List.length_singleton] at hlength
    have hnumber : t.numberOf g.id = UInt32.ofNat ((s.history campaign).length + 1) := by
      have hfind : t.find? g.id = some g := by rw [find?_activate ha, if_pos rfl]
      rw [numberOf_eq hfind, (labels_activate ha).2, h.nextVersion_eq (by omega)]
    simp [hold, h campaign (by omega), hnumber, List.range_succ]
  · next hc =>
    rw [if_neg hc, hold]
    exact h campaign' hlength

/-! ## Taking in -/

theorem placeByVersion_perm (number : Uuid → UInt32) (id : Uuid) (l : List Uuid) :
    (placeByVersion number id l).Perm (id :: l) := by
  induction l with
  | nil => exact .refl _
  | cons a rest ih =>
    unfold placeByVersion
    split
    · exact .refl _
    · exact (ih.cons a).trans (.swap id a rest)

theorem sorted_placeByVersion {number : Uuid → UInt32} (id : Uuid) {l : List Uuid}
    (h : l.Pairwise fun a b => number a ≤ number b) :
    (placeByVersion number id l).Pairwise fun a b => number a ≤ number b := by
  induction l with
  | nil => exact List.pairwise_singleton _ _
  | cons a rest ih =>
    obtain ⟨ha, hrest⟩ := List.pairwise_cons.1 h
    unfold placeByVersion
    split
    · next hlt =>
      have hle : number id ≤ number a := UInt32.le_of_lt hlt
      refine List.pairwise_cons.2 ⟨List.forall_mem_cons.2 ⟨hle, fun b hb => ?_⟩, h⟩
      exact UInt32.le_trans hle (ha b hb)
    · next hge =>
      refine List.pairwise_cons.2 ⟨fun b hb => ?_, ih hrest⟩
      rcases List.mem_cons.1 ((placeByVersion_perm number id rest).mem_iff.1 hb) with rfl | hb
      · exact UInt32.not_lt.1 hge
      · exact ha b hb

/-- Putting ids into their places one after another permutes them into an ordered list. -/
theorem foldl_placeByVersion (number : Uuid → UInt32) (ids sorted : List Uuid)
    (h : sorted.Pairwise fun a b => number a ≤ number b) :
    (ids.foldl (fun sorted id => placeByVersion number id sorted) sorted).Perm (sorted ++ ids) ∧
      (ids.foldl (fun sorted id => placeByVersion number id sorted) sorted).Pairwise
        fun a b => number a ≤ number b := by
  induction ids generalizing sorted with
  | nil => simpa using h
  | cons id rest ih =>
    obtain ⟨hperm, hsorted⟩ := ih _ (sorted_placeByVersion id h)
    refine ⟨hperm.trans ?_, hsorted⟩
    exact ((placeByVersion_perm number id sorted).append_right rest).trans
      List.perm_middle.symm

theorem sortByVersion_perm (number : Uuid → UInt32) (ids : List Uuid) :
    (sortByVersion number ids).Perm ids := (foldl_placeByVersion number ids [] .nil).1

theorem sorted_sortByVersion (number : Uuid → UInt32) (ids : List Uuid) :
    (sortByVersion number ids).Pairwise fun a b => number a ≤ number b :=
  (foldl_placeByVersion number ids [] .nil).2

/-- A version that is taken in is listed in its place, unless it is listed already. -/
theorem history_accept (s : FlowStore) (g : Graph) (campaign : Uuid) :
    (s.accept g.definition).history campaign =
      if campaign = g.campaignId ∧ g.id ∉ s.history campaign then
        sortByVersion (s.accept g.definition).numberOf (s.history campaign ++ [g.id])
      else s.history campaign := by
  have hnumber : (s.accept g.definition).numberOf = (s.store g).numberOf := by
    funext id
    refine numberOf_congr ?_
    rw [find?_accept, find?_store]
  rw [hnumber]
  unfold accept restore
  rw [Graph.compile_definition]
  by_cases hmem : g.id ∈ s.history g.campaignId
  · have hids : (s.history g.definition.campaignId).contains g.id = true := by
      simpa [Graph.campaignId] using hmem
    simp only [bind, Except.bind, hids, if_true, pure, Except.pure]
    rw [if_neg]
    · rfl
    · rintro ⟨rfl, hnot⟩
      exact hnot hmem
  · have hids : (s.history g.definition.campaignId).contains g.id = false := by
      simpa [Graph.campaignId] using hmem
    simp only [bind, Except.bind, hids, pure, Except.pure, Bool.false_eq_true, if_false]
    by_cases hc : campaign = g.campaignId
    · subst hc
      rw [if_pos ⟨rfl, hmem⟩]
      simp only [history, Graph.campaignId, Table.find?_insert_self, Option.getD_some]
      rfl
    · rw [if_neg fun h => hc h.1]
      exact congrArg (Option.getD · []) (Table.find?_insert_of_ne s.byCampaign _ hc)

theorem Listed.accept (h : s.Listed) (hg : s.Admits g) : (s.accept g.definition).Listed := by
  refine h.stored hg (s.find?_accept g) (fun campaign => ?_) fun campaign id => ?_
  · rw [history_accept]
    split
    · next hnew =>
      refine (sortByVersion_perm _ _).nodup_iff.2 ?_
      refine List.nodup_append.2 ⟨h.nodup campaign, by simp, ?_⟩
      rintro a ha b hb rfl
      exact hnew.2 (List.mem_singleton.1 hb ▸ ha)
    · exact h.nodup campaign
  · rw [history_accept]
    split
    · next hnew => simp [(sortByVersion_perm _ _).mem_iff, hnew.1]
    · next hold =>
      refine ⟨.inl, fun hid => hid.elim (fun hid => hid) ?_⟩
      rintro ⟨hc, rfl⟩
      by_contra hmem
      exact hold ⟨hc, hmem⟩

theorem Ascending.accept (h : s.Ascending) (hs : s.Listed) (hg : s.Admits g) :
    (s.accept g.definition).Ascending := by
  intro campaign
  rw [history_accept]
  split
  · exact sorted_sortByVersion _ _
  · refine (h campaign).imp_of_mem fun {a b} ha hb hab => ?_
    have hkept : ∀ id ∈ s.history campaign,
        (s.accept g.definition).numberOf id = s.numberOf id := by
      intro id hid
      obtain ⟨g', hg', -⟩ := (hs.mem_iff campaign id).1 hid
      rw [numberOf_eq hg', numberOf_eq (hg.find?_kept (s.find?_accept g) hg')]
    rw [hkept a ha, hkept b hb]
    exact hab

/-! ## One order -/

/-- Stores with the same versions list the same ids for a campaign. -/
theorem Listed.history_perm (ht : t.Listed) (hs : s.Listed) (hfind : ∀ id, t.find? id = s.find? id)
    (campaign : Uuid) : (t.history campaign).Perm (s.history campaign) := by
  refine (List.perm_ext_iff_of_nodup (ht.nodup campaign) (hs.nodup campaign)).2 fun id => ?_
  rw [ht.mem_iff, hs.mem_iff, hfind]

/-- As long as they do not start over, the numbers of a campaign ascend. -/
theorem Numbered.strictly (h : s.Numbered) (hlength : (s.history campaign).length < 0x100000000) :
    (s.history campaign).Pairwise fun a b => s.numberOf a < s.numberOf b := by
  rw [← List.pairwise_map, h campaign hlength, List.pairwise_map]
  refine List.pairwise_lt_range.imp_of_mem fun {i j} hi hj hij => ?_
  rw [List.mem_range] at hi hj
  rw [UInt32.lt_iff_toNat_lt, UInt32.toNat_ofNat', UInt32.toNat_ofNat',
    Nat.mod_eq_of_lt (by omega), Nat.mod_eq_of_lt (by omega)]
  omega

/-- Versions that were activated one after another are listed in the same order after they were taken
in, unless their numbers started over. -/
theorem Ascending.history_eq (hascending : t.Ascending) (ht : t.Listed) (hs : s.Listed)
    (hnumbered : s.Numbered) (hfind : ∀ id, t.find? id = s.find? id)
    (hlength : (s.history campaign).length < 0x100000000) :
    t.history campaign = s.history campaign := by
  have hperm := ht.history_perm hs hfind campaign
  have hstrict := hnumbered.strictly hlength
  have hsame : t.numberOf = s.numberOf := funext fun id => numberOf_congr (hfind id)
  refine hperm.eq_of_pairwise (fun a b ha hb hab hba => ?_) (hsame ▸ hascending campaign)
    (hstrict.imp UInt32.le_of_lt)
  have hnodup : ((s.history campaign).map s.numberOf).Nodup :=
    List.pairwise_map.2 (hstrict.imp UInt32.ne_of_lt)
  exact List.inj_on_of_nodup_map hnodup (hperm.mem_iff.1 ha) hb (UInt32.le_antisymm hab hba)

end MailCampaign.FlowStore
