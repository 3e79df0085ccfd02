import MailCampaign.Proofs.Flow.Legal
import MailCampaign.Proofs.Flow.Order

/-!
# One history of versions

A store is filled by calls: a document is activated, or a definition that was stored elsewhere is taken
in. A call takes a version in when the document passes the rules. However calls are mixed, as long as
the versions that they take in do not contradict each other (`Consistent`), the store holds just these
versions, and lists those of a campaign by their numbers.

1. What a store holds is known by the versions that were taken in (`Holds`). Its lists are strictly
   ascending and the active version of a campaign has the largest number (`Holds.ordered`), so the next
   number is new (`Holds.next_number`).
2. The id that an activation draws is therefore new as well, and one call keeps `Holds`
   (`Holds.perform`); so does a sequence of calls (`Holds.performAll`).
-/

namespace MailCampaign

theorem Graph.eq_of_definition {g g' : Graph} (h : g.definition = g'.definition) : g = g' := by
  have hcompile := Graph.compile_definition g
  rw [h, Graph.compile_definition g'] at hcompile
  exact (Except.ok.inj hcompile).symm

namespace FlowStore

/-- A call that may fill a store. -/
inductive Call where
  /-- A document is made the next version of a campaign, under an id. -/
  | activate (id campaign : Uuid) (document : Document) (now : Instant)
  /-- A definition is taken in with its own id and number. -/
  | restore (d : Definition)

namespace Call

/-- The definition that a call would store. -/
def offer (s : FlowStore) : Call → Definition
  | .activate id campaign document now => ⟨id, campaign, s.nextVersion campaign, document, now⟩
  | .restore d => d

/-- The version that a call takes in. -/
def taken? (s : FlowStore) (call : Call) : Option Graph := (Graph.compile (call.offer s)).toOption

/-- The store after a call. -/
def perform (s : FlowStore) : Call → FlowStore
  | .activate id campaign document now =>
    match s.activate id campaign document now with
    | .ok (t, _) => t
    | .error _ => s
  | .restore d => s.accept d

/-- The store after some calls. -/
def performAll (s : FlowStore) (calls : List Call) : FlowStore := calls.foldl perform s

theorem performAll_append (s : FlowStore) (before after : List Call) :
    performAll s (before ++ after) = performAll (performAll s before) after := List.foldl_append

/-- The versions that calls take in, in their order. -/
def taken (s : FlowStore) : List Call → List Graph
  | [] => []
  | call :: rest => (call.taken? s).toList ++ taken (call.perform s) rest

theorem taken_append (s : FlowStore) (before after : List Call) :
    taken s (before ++ after) = taken s before ++ taken (performAll s before) after := by
  induction before generalizing s with
  | nil => rfl
  | cons call rest ih =>
    rw [List.cons_append, taken, taken, ih, List.append_assoc]
    rfl

end Call

/-- Versions that do not contradict each other. -/
structure Consistent (gs : List Graph) : Prop where
  /-- An id always carries the same definition. -/
  ids : ∀ g ∈ gs, ∀ g' ∈ gs, g.id = g'.id → g.definition = g'.definition
  /-- Two ids of a campaign never carry the same number. -/
  numbers : ∀ g ∈ gs, ∀ g' ∈ gs,
    g.campaignId = g'.campaignId → g.version = g'.version → g.id = g'.id
  /-- Numbers do not start over. -/
  bound : ∀ g ∈ gs, g.version.toNat < 0xFFFFFFFF

instance (gs : List Graph) : Decidable (Consistent gs) :=
  decidable_of_iff
    ((∀ g ∈ gs, ∀ g' ∈ gs, g.id = g'.id → g.definition = g'.definition) ∧
      (∀ g ∈ gs, ∀ g' ∈ gs,
        g.campaignId = g'.campaignId → g.version = g'.version → g.id = g'.id) ∧
      ∀ g ∈ gs, g.version.toNat < 0xFFFFFFFF)
    ⟨fun h => ⟨h.1, h.2.1, h.2.2⟩, fun h => ⟨h.ids, h.numbers, h.bound⟩⟩

theorem Consistent.of_subset {gs gs' : List Graph} (h : Consistent gs) (hsub : gs' ⊆ gs) :
    Consistent gs' where
  ids g hg g' hg' := h.ids g (hsub hg) g' (hsub hg')
  numbers g hg g' hg' := h.numbers g (hsub hg) g' (hsub hg')
  bound g hg := h.bound g (hsub hg)

/-- A store that holds some versions, those of each campaign in ascending order. -/
structure Holds (s : FlowStore) (gs : List Graph) : Prop where
  listed : s.Listed
  ascending : s.Ascending
  find? : ∀ id g, s.find? id = some g ↔ g ∈ gs ∧ g.id = id

/-- The versions of a campaign in a store: each of them once, in strictly ascending order, and the last
one is active. -/
structure Ordered (s : FlowStore) (gs : List Graph) (campaign : Uuid) : Prop where
  members : ∀ g, g ∈ s.versions campaign ↔ g ∈ gs ∧ g.campaignId = campaign
  once : ((s.versions campaign).map Graph.id).Nodup
  strictly : (s.versions campaign).Pairwise fun a b => a.version < b.version
  active : ∀ g, s.active? campaign = some g ↔
    g ∈ s.versions campaign ∧ ∀ g' ∈ s.versions campaign, g'.version ≤ g.version

/-- A number that follows those of some versions: one, or one more than the largest. -/
def Follows (number : UInt32) (gs : List Graph) : Prop :=
  gs = [] ∧ number = 1 ∨
    ∃ last ∈ gs, (∀ g ∈ gs, g.version ≤ last.version) ∧ number.toNat = last.version.toNat + 1

variable {s t : FlowStore} {gs : List Graph} {g : Graph} {id campaign : Uuid} {document : Document}
  {now : Instant} {call : Call} {calls : List Call}

theorem holds_empty : Holds empty [] := ⟨listed_empty, ascending_empty, by simp⟩

/-! ## The order of what is held -/

theorem Listed.mem_versions (h : s.Listed) :
    g ∈ s.versions campaign ↔ s.find? g.id = some g ∧ g.campaignId = campaign := by
  unfold versions
  rw [List.mem_filterMap]
  constructor
  · rintro ⟨id, hid, hg⟩
    obtain ⟨g', hg', hc⟩ := (h.mem_iff campaign id).1 hid
    obtain rfl := Option.some.inj (hg.symm.trans hg')
    exact ⟨by rw [id_eq_of_find? hg, hg], hc⟩
  · rintro ⟨hg, hc⟩
    exact ⟨g.id, (h.mem_iff campaign g.id).2 ⟨g, hg, hc⟩, hg⟩

namespace Holds

theorem mem_versions (h : s.Holds gs) :
    g ∈ s.versions campaign ↔ g ∈ gs ∧ g.campaignId = campaign := by
  rw [h.listed.mem_versions, h.find?, and_iff_left rfl]

/-- Two versions of one number in a campaign are one. -/
theorem eq_of_version (h : s.Holds gs) (hgs : Consistent gs) {g g' : Graph}
    (hg : g ∈ s.versions campaign) (hg' : g' ∈ s.versions campaign) (hv : g.version = g'.version) :
    g = g' := by
  obtain ⟨hmem, hc⟩ := h.mem_versions.1 hg
  obtain ⟨hmem', hc'⟩ := h.mem_versions.1 hg'
  exact Graph.eq_of_definition
    (hgs.ids g hmem g' hmem' (hgs.numbers g hmem g' hmem' (hc.trans hc'.symm) hv))

/-- The history of a campaign is that of its versions. -/
theorem map_id_versions (h : s.Holds gs) (campaign : Uuid) :
    (s.versions campaign).map Graph.id = s.history campaign := by
  unfold versions
  rw [List.map_filterMap]
  have hsome : ∀ id ∈ s.history campaign, (s.find? id).map Graph.id = some id := by
    intro id hid
    obtain ⟨g, hg, -⟩ := (h.listed.mem_iff campaign id).1 hid
    rw [hg, Option.map_some, id_eq_of_find? hg]
  rw [List.filterMap_congr hsome, List.filterMap_some]

/-- The active version is the last one that is listed. -/
theorem active?_eq (h : s.Holds gs) (campaign : Uuid) :
    s.active? campaign = (s.versions campaign).getLast? := by
  unfold active?
  rw [← h.map_id_versions, List.getLast?_map]
  cases hlast : (s.versions campaign).getLast? with
  | none => rfl
  | some g => exact (h.listed.mem_versions.1 (List.mem_of_getLast? hlast)).1

theorem ascends (h : s.Holds gs) (campaign : Uuid) :
    (s.versions campaign).Pairwise fun a b => a.version ≤ b.version := by
  have hnumbers := h.ascending campaign
  rw [← h.map_id_versions, List.pairwise_map] at hnumbers
  refine hnumbers.imp_of_mem fun ha hb hab => ?_
  rwa [numberOf_eq (h.listed.mem_versions.1 ha).1, numberOf_eq (h.listed.mem_versions.1 hb).1] at hab

/-- The active version has the largest number. -/
theorem largest_of_active? (h : s.Holds gs) (hactive : s.active? campaign = some g) :
    g ∈ s.versions campaign ∧ ∀ g' ∈ s.versions campaign, g'.version ≤ g.version := by
  rw [h.active?_eq] at hactive
  obtain ⟨before, hlist⟩ := List.getLast?_eq_some_iff.1 hactive
  refine ⟨List.mem_of_getLast? hactive, fun g' hg' => ?_⟩
  have hascends := h.ascends campaign
  rw [hlist] at hascends hg'
  rcases List.mem_append.1 hg' with hg' | hg'
  · exact (List.pairwise_append.1 hascends).2.2 g' hg' g List.mem_cons_self
  · rw [List.mem_singleton.1 hg']
    exact UInt32.le_refl _

/-- The versions of a campaign ascend strictly, and the active one is the largest. -/
theorem ordered (h : s.Holds gs) (hgs : Consistent gs) (campaign : Uuid) :
    s.Ordered gs campaign := by
  have honce : ((s.versions campaign).map Graph.id).Nodup :=
    (h.map_id_versions campaign).symm ▸ h.listed.nodup campaign
  refine ⟨fun g => h.mem_versions, honce, ?_, fun g => ⟨h.largest_of_active?, ?_⟩⟩
  · refine ((h.ascends campaign).and (List.Nodup.of_map _ honce)).imp_of_mem fun {a b} ha hb hab => ?_
    exact UInt32.lt_of_le_of_ne hab.1 fun hv => hab.2 (h.eq_of_version hgs ha hb hv)
  · rintro ⟨hg, hle⟩
    cases hactive : s.active? campaign with
    | none =>
      rw [h.active?_eq, List.getLast?_eq_none_iff] at hactive
      rw [hactive] at hg
      cases hg
    | some last =>
      obtain ⟨hmem, hmax⟩ := h.largest_of_active? hactive
      exact congrArg some
        (h.eq_of_version hgs hmem hg (UInt32.le_antisymm (hle last hmem) (hmax g hg)))

/-- The next number of a campaign follows those there are. -/
theorem next_number (h : s.Holds gs) (hgs : Consistent gs) (campaign : Uuid) :
    Follows (s.nextVersion campaign) (s.versions campaign) := by
  have hnext : s.nextVersion campaign =
      ((s.active? campaign).map Graph.version).getD 0 + 1 := by
    unfold nextVersion versionOf active?
    cases (s.history campaign).getLast?.bind s.find? <;> rfl
  rw [hnext]
  cases hactive : s.active? campaign with
  | none =>
    refine .inl ⟨?_, rfl⟩
    rwa [h.active?_eq, List.getLast?_eq_none_iff] at hactive
  | some last =>
    obtain ⟨hmem, hmax⟩ := h.largest_of_active? hactive
    refine .inr ⟨last, hmem, hmax, ?_⟩
    have hbound := hgs.bound last (h.mem_versions.1 hmem).1
    rw [Option.map_some, Option.getD_some, UInt32.toNat_add]
    exact Nat.mod_eq_of_lt (Nat.succ_lt_succ hbound)

/-- The next number of a campaign is larger than those there are. -/
theorem lt_nextVersion (h : s.Holds gs) (hgs : Consistent gs) (hg : g ∈ s.versions campaign) :
    g.version < s.nextVersion campaign := by
  rcases h.next_number hgs campaign with ⟨hnil, -⟩ | ⟨last, -, hmax, hnext⟩
  · rw [hnil] at hg
    cases hg
  · have hle := UInt32.le_iff_toNat_le.1 (hmax g hg)
    rw [UInt32.lt_iff_toNat_lt]
    omega

/-- The id that an activation draws is new. -/
theorem find?_of_activate (h : s.Holds gs) (hgs : Consistent (gs ++ [g]))
    (ha : s.activate id campaign document now = .ok (t, g)) : s.find? id = none := by
  obtain ⟨hcampaign, hnumber⟩ := labels_activate ha
  obtain rfl := id_of_activate ha
  cases hfind : s.find? g.id with
  | none => rfl
  | some g' =>
    -- A version of this id has the number of the new one, which is larger than all of the campaign.
    obtain ⟨hmem, hid⟩ := (h.find? g.id g').1 hfind
    obtain rfl := Graph.eq_of_definition
      (hgs.ids g' (List.mem_append_left _ hmem) g (by simp) hid)
    have hlt := h.lt_nextVersion (hgs.of_subset (List.subset_append_left _ _))
      (h.mem_versions.2 ⟨hmem, hcampaign⟩)
    rw [← hnumber] at hlt
    exact absurd rfl (UInt32.ne_of_lt hlt)

/-- A version that a call takes in is stored beside the others. -/
theorem find?_stored (h : s.Holds gs) (hgs : Consistent (gs ++ [g]))
    (hfind : ∀ id, t.find? id = if id = g.id then some g else s.find? id) (id : Uuid) (g' : Graph) :
    t.find? id = some g' ↔ g' ∈ gs ++ [g] ∧ g'.id = id := by
  rw [hfind, List.mem_append, List.mem_singleton]
  split
  · next hid =>
    subst hid
    constructor
    · rintro ⟨⟩
      exact ⟨.inr rfl, rfl⟩
    · rintro ⟨hmem | rfl, hid⟩
      · exact congrArg some (Graph.eq_of_definition
          (hgs.ids g (by simp) g' (List.mem_append_left _ hmem) hid.symm))
      · rfl
  · next hid =>
    rw [h.find?]
    constructor
    · exact fun ⟨hmem, hid'⟩ => ⟨.inl hmem, hid'⟩
    · rintro ⟨hmem | rfl, hid'⟩
      · exact ⟨hmem, hid'⟩
      · exact absurd hid'.symm hid

theorem admits (h : s.Holds gs) (hgs : Consistent (gs ++ [g])) : s.Admits g := by
  intro g' hg'
  obtain ⟨hmem, hid⟩ := (h.find? g.id g').1 hg'
  exact Graph.eq_of_definition (hgs.ids g' (List.mem_append_left _ hmem) g (by simp) hid)

end Holds

/-! ## Calls -/

/-- A document breaks a rule exactly when its activation does. -/
theorem activate_eq_error_iff {v : Violation} :
    s.activate id campaign document now = .error v ↔ document.validate = .error v := by
  unfold activate Graph.compile
  split
  · next entry hentry =>
    constructor
    · intro h
      cases h
    · intro h
      cases hentry.symm.trans h
  · next v' hv =>
    rw [hv]
    exact ⟨fun h => congrArg _ (Except.error.inj h), fun h => congrArg _ (Except.error.inj h)⟩

/-- An activated version stands behind versions whose numbers are not greater. -/
theorem Ascending.activate (h : s.Ascending) (hs : s.Listed)
    (ha : s.activate id campaign document now = .ok (t, g)) (hfresh : s.find? id = none)
    (hlast : ∀ a ∈ s.history campaign, s.numberOf a ≤ g.version) : t.Ascending := by
  have hid := id_of_activate ha
  have hkept : ∀ campaign', ∀ a ∈ s.history campaign', t.numberOf a = s.numberOf a := by
    intro campaign' a hmem
    obtain ⟨g', hg', -⟩ := (hs.mem_iff campaign' a).1 hmem
    refine numberOf_congr ?_
    rw [find?_activate ha, if_neg]
    rintro rfl
    rw [hid, hfresh] at hg'
    cases hg'
  have hold : ∀ campaign', (s.history campaign').Pairwise fun a b => t.numberOf a ≤ t.numberOf b :=
    fun campaign' => (h campaign').imp_of_mem fun {a b} ha hb hab => by
      rwa [hkept campaign' a ha, hkept campaign' b hb]
  intro campaign'
  rw [history_activate ha]
  split
  · refine List.pairwise_append.2 ⟨hold campaign, List.pairwise_singleton _ _, ?_⟩
    rintro a hmem b hb
    obtain rfl := List.mem_singleton.1 hb
    have hnew : t.find? g.id = some g := by rw [find?_activate ha, if_pos rfl]
    rw [hkept campaign a hmem, numberOf_eq hnew]
    exact hlast a hmem
  · exact hold campaign'

namespace Call

theorem taken?_eq_some_iff : call.taken? s = some g ↔ Graph.compile (call.offer s) = .ok g := by
  unfold taken?
  cases Graph.compile (call.offer s) with
  | error v => exact ⟨nofun, nofun⟩
  | ok g' => exact ⟨fun h => congrArg _ (Option.some.inj h), fun h => congrArg _ (Except.ok.inj h)⟩

/-- A call that takes no version in leaves the store alone. -/
theorem perform_of_none (h : call.taken? s = none) : call.perform s = s := by
  have hnot : ∀ g, Graph.compile (call.offer s) ≠ .ok g := by
    intro g hg
    rw [taken?_eq_some_iff.2 hg] at h
    cases h
  cases call with
  | activate id campaign document now =>
    cases ha : s.activate id campaign document now with
    | ok p => exact absurd (activate_eq_ok_iff.1 ha).1 (hnot p.2)
    | error v => simp only [perform, ha]
  | restore d =>
    cases hg : Graph.compile d with
    | ok g => exact absurd hg (hnot g)
    | error v =>
      simp only [perform, accept, FlowStore.restore, hg]
      rfl

/-- A call takes a version in by restoring it or by activating it. -/
theorem perform_of_some (h : call.taken? s = some g) :
    call.perform s = s.accept g.definition ∨
      ∃ id campaign document now,
        s.activate id campaign document now = .ok (call.perform s, g) := by
  rw [taken?_eq_some_iff] at h
  cases call with
  | activate id campaign document now =>
    have ha := activate_eq_ok_iff.2 ⟨h, rfl⟩
    refine .inr ⟨id, campaign, document, now, ?_⟩
    simp only [perform, ha]
  | restore d =>
    obtain rfl := (Graph.compile_eq_ok_iff.1 h).1
    exact .inl rfl

end Call

namespace Holds

/-- **One call keeps the history.** -/
theorem perform (h : s.Holds gs) (hgs : Consistent (gs ++ (call.taken? s).toList)) :
    (call.perform s).Holds (gs ++ (call.taken? s).toList) := by
  cases htaken : call.taken? s with
  | none =>
    rw [Call.perform_of_none htaken, Option.toList_none, List.append_nil]
    exact h
  | some g =>
    rw [htaken, Option.toList_some] at hgs
    rw [Option.toList_some]
    obtain hrestored | ⟨id, campaign, document, now, ha⟩ := Call.perform_of_some htaken
    · have hadmits := h.admits hgs
      rw [hrestored]
      exact ⟨h.listed.accept hadmits, h.ascending.accept h.listed hadmits,
        h.find?_stored hgs (s.find?_accept g)⟩
    · have hfresh := h.find?_of_activate hgs ha
      refine ⟨h.listed.activate ha hfresh, h.ascending.activate h.listed ha hfresh ?_,
        h.find?_stored hgs (find?_activate ha)⟩
      intro a hmem
      obtain ⟨g', hg', hcampaign⟩ := (h.listed.mem_iff campaign a).1 hmem
      obtain rfl := id_eq_of_find? hg'
      rw [numberOf_eq hg', (labels_activate ha).2]
      exact UInt32.le_of_lt (h.lt_nextVersion (hgs.of_subset (List.subset_append_left _ _))
        (h.listed.mem_versions.2 ⟨hg', hcampaign⟩))

/-- **Calls keep the history.** -/
theorem performAll (h : s.Holds gs) (hgs : Consistent (gs ++ Call.taken s calls)) :
    (Call.performAll s calls).Holds (gs ++ Call.taken s calls) := by
  induction calls generalizing s gs with
  | nil => simpa [Call.performAll, Call.taken] using h
  | cons call rest ih =>
    rw [Call.taken, ← List.append_assoc] at hgs ⊢
    exact ih (h.perform (hgs.of_subset (List.subset_append_left _ _))) hgs

/-- What calls stored before stays as it is. -/
theorem find?_performAll (h : s.Holds gs) (hgs : Consistent (gs ++ Call.taken s calls))
    (hg : s.find? id = some g) : (Call.performAll s calls).find? id = some g := by
  obtain ⟨hmem, hid⟩ := (h.find? id g).1 hg
  exact ((h.performAll hgs).find? id g).2 ⟨List.mem_append_left _ hmem, hid⟩

/-- An activation of a legal document stores it under the next number and makes it active. -/
theorem activate (h : s.Holds gs) (hgs : Consistent gs) {entry : Node}
    (hdocument : document.validate = .ok entry) (id campaign : Uuid) (now : Instant) :
    ∃ t g, s.activate id campaign document now = .ok (t, g) ∧
      g.definition = ⟨id, campaign, g.version, document, now⟩ ∧
      Follows g.version (s.versions campaign) ∧ t.active? campaign = some g := by
  cases ha : s.activate id campaign document now with
  | error v =>
    rw [activate_eq_error_iff, hdocument] at ha
    cases ha
  | ok p =>
    obtain ⟨t, g⟩ := p
    have hnumber : g.version = s.nextVersion campaign := (labels_activate ha).2
    refine ⟨t, g, rfl, ?_, hnumber ▸ h.next_number hgs campaign, active?_activate ha⟩
    rw [hnumber]
    exact (Graph.compile_eq_ok_iff.1 (activate_eq_ok_iff.1 ha).1).1

end Holds

/-- **Versions form one ascending history.** Let calls activate documents and take definitions in, in
any mixture, such that what they store is consistent. After any of them the store holds just what was
taken in: under each id the version that was taken in with it, which stays the same through all later
calls, and for each campaign its versions, each once, in strictly ascending order, the last of which is
active. A call that offers an illegal flow leaves the store alone, and an activation of an illegal flow
reports the broken rule. An activation of a legal flow succeeds, with a number one above the largest one
of the campaign, or one if there is none, and its version becomes active. -/
theorem versions_ascend {calls : List Call} (h : Consistent (Call.taken empty calls)) :
    (∀ before, before <+: calls →
      (∀ campaign, (Call.performAll empty before).Ordered (Call.taken empty before) campaign) ∧
      ∀ id g, ((Call.performAll empty before).find? id = some g ↔
          g ∈ Call.taken empty before ∧ g.id = id) ∧
        ((Call.performAll empty before).find? id = some g →
          (Call.performAll empty calls).find? id = some g)) ∧
    (∀ before call v, before ++ [call] <+: calls →
      (call.offer (Call.performAll empty before)).document.validate = .error v →
      Call.performAll empty (before ++ [call]) = Call.performAll empty before) ∧
    ∀ before id campaign document now, before ++ [.activate id campaign document now] <+: calls →
      (∀ v, document.validate = .error v →
        (Call.performAll empty before).activate id campaign document now = .error v) ∧
      ∀ entry, document.validate = .ok entry →
        ∃ g, (Call.performAll empty before).activate id campaign document now =
            .ok (Call.performAll empty (before ++ [.activate id campaign document now]), g) ∧
          g.definition = ⟨id, campaign, g.version, document, now⟩ ∧
          Follows g.version ((Call.performAll empty before).versions campaign) ∧
          (Call.performAll empty (before ++ [.activate id campaign document now])).active? campaign =
            some g := by
  have hholds : ∀ before, before <+: calls →
      Consistent (Call.taken empty before) ∧
        (Call.performAll empty before).Holds (Call.taken empty before) := by
    rintro before ⟨after, rfl⟩
    rw [Call.taken_append] at h
    have hbefore := h.of_subset (List.subset_append_left _ _)
    exact ⟨hbefore, holds_empty.performAll hbefore⟩
  refine ⟨fun before hbefore => ?_, fun before call v hbefore hv => ?_,
    fun before id campaign document now hbefore => ?_⟩
  · obtain ⟨hgs, hs⟩ := hholds before hbefore
    refine ⟨hs.ordered hgs, fun id g => ⟨hs.find? id g, fun hg => ?_⟩⟩
    obtain ⟨after, rfl⟩ := hbefore
    rw [Call.performAll_append]
    exact hs.find?_performAll (Call.taken_append empty before after ▸ h) hg
  · rw [Call.performAll_append]
    refine Call.perform_of_none (Option.eq_none_iff_forall_ne_some.2 fun g hg => ?_)
    have hlegal := (Graph.compile_eq_ok_iff.1 (Call.taken?_eq_some_iff.1 hg)).2
    exact nomatch hv.symm.trans hlegal
  · refine ⟨fun v => activate_eq_error_iff.2, fun entry hentry => ?_⟩
    obtain ⟨hgs, hs⟩ := hholds before ((List.prefix_append before _).trans hbefore)
    obtain ⟨t, g, ha, hdefinition, hnumber, hactive⟩ :=
      hs.activate hgs hentry id campaign now
    have hafter : Call.performAll empty (before ++ [.activate id campaign document now]) = t := by
      rw [Call.performAll_append]
      simp only [Call.performAll, List.foldl_cons, List.foldl_nil, Call.perform] at ha ⊢
      rw [ha]
    rw [hafter]
    exact ⟨g, ha, hdefinition, hnumber, hactive⟩

/-- Two versions that are restored in the wrong order and again, with activations of a legal and of an
empty document between. -/
def Call.mixed : List Call :=
  [.restore ⟨.ofNat 2, .ofNat 0, 2, .followUp, .epoch⟩,
    .restore ⟨.ofNat 1, .ofNat 0, 1, .followUp, .epoch⟩,
    .activate (.ofNat 3) (.ofNat 0) .followUp .epoch, .activate (.ofNat 4) (.ofNat 0) ⟨[], []⟩ .epoch,
    .restore ⟨.ofNat 1, .ofNat 0, 1, .followUp, .epoch⟩]

/-- The activated version gets the third number, and stays the active one. -/
theorem versions_ascend_mixed :
    Consistent (Call.taken empty Call.mixed) ∧
    ((Call.performAll empty Call.mixed).versions (.ofNat 0)).map Graph.version = [1, 2, 3] ∧
    ((Call.performAll empty Call.mixed).active? (.ofNat 0)).map Graph.id = some (.ofNat 3) ∧
    ∀ campaign,
      (Call.performAll empty Call.mixed).Ordered (Call.taken empty Call.mixed) campaign := by
  have hconsistent : Consistent (Call.taken empty Call.mixed) := by decide +kernel
  have hordered := ((versions_ascend hconsistent).1 _ (List.prefix_refl _)).1
  exact ⟨hconsistent, by decide +kernel, by decide +kernel, hordered⟩

end FlowStore

end MailCampaign
