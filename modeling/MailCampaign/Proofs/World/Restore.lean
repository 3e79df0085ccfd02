import MailCampaign.Proofs.World.Tidy
import MailCampaign.World.Order

/-!
# What a snapshot brings back

A snapshot lists what a world has, in any order. Loaded into an empty world it fills every slot with
what the world had there. What is rebuilt on that, from a journal that need not start where the
snapshot was taken, is the world again, with its lists and its order; it may know more of the keys
that pruning forgets.
-/

namespace MailCampaign

/-- Taking in items one after another, each of which puts the value of its key in its place, leaves
at the keys of the items their values. -/
theorem find?_foldl {S α κ ν : Type} [DecidableEq κ] (find? : S → κ → Option ν)
    {put : S → α → S} (key : α → κ) (f : κ → Option ν) {l : List α}
    (hput : ∀ a ∈ l, ∀ s k, find? (put s a) k = if k = key a then f k else find? s k) (s : S) (k : κ) :
    find? (l.foldl put s) k = if k ∈ l.map key then f k else find? s k := by
  induction l generalizing s with
  | nil => rfl
  | cons a rest ih =>
    rw [List.foldl_cons, ih (fun b hb => hput b (List.mem_cons_of_mem a hb)),
      hput a List.mem_cons_self]
    by_cases ha : k = key a
    · simp [ha]
    · simp [ha]

/-- Taking in all items of something leaves it. -/
theorem find?_foldl_all {S α κ ν : Type} [DecidableEq κ] (find? : S → κ → Option ν)
    {put : S → α → S} (key : α → κ) (f : κ → Option ν) {l : List α}
    (hput : ∀ a ∈ l, ∀ s k, find? (put s a) k = if k = key a then f k else find? s k)
    (hall : ∀ k v, f k = some v → ∃ a ∈ l, key a = k) {s : S} (hs : ∀ k, find? s k = none) (k : κ) :
    find? (l.foldl put s) k = f k := by
  rw [find?_foldl find? key f hput]
  split
  · rfl
  · next hk =>
    cases hf : f k with
    | none => exact hs k
    | some v =>
      obtain ⟨a, ha, rfl⟩ := hall k v hf
      exact absurd (List.mem_map_of_mem ha) hk

/-- Storing the entries of a table in any order brings it back. -/
theorem Table.find?_insertAll_perm {κ ν : Type} [DecidableEq κ] {t : Table κ ν} {l : List (κ × ν)}
    (h : l.Perm t.toList) (k : κ) : (Table.empty.insertAll l).find? k = t.find? k := by
  refine find?_foldl_all Table.find? Prod.fst t.find? ?_ ?_ Table.find?_empty k
  · rintro ⟨k', v⟩ he s k
    have hv : t.find? k' = some v := t.mem_toList.1 (h.mem_iff.1 he)
    rw [Table.find?_insert]
    split
    · next hk => rw [hk, hv]
    · rfl
  · intro k v hv
    exact ⟨(k, v), h.mem_iff.2 (t.mem_toList.2 hv), rfl⟩

theorem Statistics.mem_foldl_remember {f : FirstOfKind} {l firsts : List FirstOfKind} :
    f ∈ l.foldl Statistics.remember firsts ↔ f ∈ firsts ∨ f ∈ l := by
  induction l generalizing firsts with
  | nil => simp
  | cons g rest ih => simp [ih, Statistics.mem_remember, or_assoc]

/-- The settled keys of a table are those that it keeps when the others are dropped. -/
theorem SeenKeys.settled_map (s : SeenKeys) :
    s.settled.map (fun e => (e.1, Admission.mk e.2 true)) =
      (s.table.keepIf fun _ a => a.settled).toList := by
  unfold settled
  rw [List.map_map]
  refine (List.map_congr_left fun e he => ?_).trans (List.map_id _)
  obtain ⟨key, time, settled⟩ := e
  obtain rfl : settled = true := (List.mem_filter.1 he).2
  rfl

/-! ## Snapshots -/

/-- A snapshot that lists what a world has, in any order. -/
structure Snapshot.Lists (snap : Snapshot) (w : World) : Prop where
  flows : snap.flows.Perm w.flows.definitions
  cursors : snap.cursors.Perm w.cursors.all
  leads : snap.leads.Perm w.leads.values
  campaigns : snap.campaigns.Perm w.campaigns.toList
  totals : snap.statistics.campaigns.Perm w.statistics.totals.toList
  applied : snap.statistics.applied.Perm w.statistics.applied.toList
  firsts : snap.statistics.firsts.Perm w.statistics.firsts
  seen : snap.seen.Perm w.seen.settled

theorem World.lists_snapshot (w : World) (now : Instant) : (w.snapshot now).Lists w :=
  ⟨.refl _, .refl _, .refl _, .refl _, .refl _, .refl _, .refl _, .refl _⟩

theorem sortBy_perm {α β : Type} (f : α → β) (before : β → β → Bool) (l : List α) :
    (sortBy f before l).Perm l := List.mergeSort_perm _ _

theorem Snapshot.Lists.sorted {snap : Snapshot} {w : World} (h : snap.Lists w) :
    snap.sorted.Lists w where
  flows := (sortBy_perm _ _ _).trans h.flows
  cursors := (sortBy_perm _ _ _).trans h.cursors
  leads := (sortBy_perm _ _ _).trans h.leads
  campaigns := (sortBy_perm _ _ _).trans h.campaigns
  totals := (sortBy_perm _ _ _).trans h.totals
  applied := (sortBy_perm _ _ _).trans h.applied
  firsts := (sortBy_perm _ _ _).trans h.firsts
  seen := (sortBy_perm _ _ _).trans h.seen

/-- The definitions of a snapshot are those of the versions. -/
theorem Snapshot.Lists.mem_flows {snap : Snapshot} {w : World} (h : snap.Lists w)
    {d : Definition} : d ∈ snap.flows ↔ w.HasVersion d := by
  rw [h.flows.mem_iff]
  constructor
  · intro hd
    obtain ⟨g, hg, rfl⟩ := List.mem_map.1 hd
    obtain ⟨⟨id, g⟩, hentry, rfl⟩ := List.mem_map.1 hg
    have hfind : w.flows.find? id = some g := w.flows.graphs.mem_toList.1 hentry
    exact ⟨g, rfl, FlowStore.id_eq_of_find? hfind ▸ hfind⟩
  · rintro ⟨g, rfl, hg⟩
    refine List.mem_map_of_mem (List.mem_map.2 ⟨(g.id, g), ?_, rfl⟩)
    exact w.flows.graphs.mem_toList.2 hg

namespace World

variable {w v u r : World} {snap : Snapshot} {l : List Entry} {n : Nat} {s : Slot}

/-! ## Loading -/

theorem find?_restored_flows (h : snap.Lists w) (id : Uuid) :
    (snap.flows.foldl FlowStore.accept FlowStore.empty).find? id = w.flows.find? id := by
  refine find?_foldl_all FlowStore.find? Definition.id w.flows.find? ?_ ?_
    FlowStore.find?_empty id
  · intro d hd s id
    obtain ⟨g, rfl, hg⟩ := h.mem_flows.1 hd
    rw [FlowStore.find?_accept]
    refine if_ctx_congr Iff.rfl (fun hid => ?_) fun _ => rfl
    rw [hid]
    exact hg.symm
  · intro id g hg
    have hid := FlowStore.id_eq_of_find? hg
    exact ⟨g.definition, h.mem_flows.2 ⟨g, rfl, hid ▸ hg⟩, hid⟩

/-- The cursors of a snapshot are all loaded. -/
theorem loadable_eq (h : snap.Lists w) (hw : w.Versioned) {flows : FlowStore}
    (hflows : ∀ id, flows.find? id = w.flows.find? id) : loadable flows snap = snap.cursors := by
  refine List.filter_eq_self.2 fun c hc => ?_
  have hversion := hw c.key c (CursorStore.mem_all.1 (h.cursors.mem_iff.1 hc))
  rw [knowsFlow, hflows]
  simpa [at?] using hversion

theorem find?_restored_cursors (h : snap.Lists w) (key : CursorKey) :
    (CursorStore.empty.restore snap.cursors).find? key = w.cursors.find? key := by
  refine find?_foldl_all CursorStore.find? Cursor.key w.cursors.find? ?_ ?_
    CursorStore.find?_empty key
  · intro c hc s key
    rw [CursorStore.find?_put]
    split
    · next hk => rw [hk, CursorStore.mem_all.1 (h.cursors.mem_iff.1 hc)]
    · rfl
  · intro key c hc
    have hk := CursorStore.key_eq_of_find? hc
    exact ⟨c, h.cursors.mem_iff.2 (CursorStore.mem_all.2 (hk.symm ▸ hc)), hk⟩

/-- A snapshot fills each slot of an empty world with what is there. -/
theorem at?_restore_of (h : snap.Lists w) (hleads : w.leads.Keyed Lead.id) (hversioned : w.Versioned)
    (n : Nat) (s : Slot) : ((empty n).restore snap).1.at? s = w.at? s := by
  have hflows := find?_restored_flows h
  cases s with
  | flow id => exact congrArg (Option.map Datum.flow) (hflows id)
  | campaign id =>
    exact congrArg (Option.map Datum.status) (Table.find?_insertAll_perm h.campaigns id)
  | lead id =>
    refine congrArg (Option.map Datum.lead) (Table.find?_insertAll_perm ?_ id)
    refine (h.leads.map _).trans (.of_eq ?_)
    rw [Table.values, List.map_map]
    refine (List.map_congr_left fun e he => ?_).trans (List.map_id _)
    exact Prod.ext (hleads e.1 e.2 (w.leads.mem_toList.1 he)) rfl
  | cursor key =>
    refine congrArg (Option.map Datum.cursor) ?_
    show (CursorStore.empty.restore (loadable (snap.flows.foldl FlowStore.accept FlowStore.empty)
      snap)).find? key = _
    rw [loadable_eq h hversioned hflows]
    exact find?_restored_cursors h key
  | totals campaign =>
    exact congrArg (Option.map Datum.totals) (Table.find?_insertAll_perm h.totals campaign)
  | first f =>
    refine if_congr ?_ rfl rfl
    refine Statistics.mem_foldl_remember.trans ?_
    rw [h.firsts.mem_iff]
    exact or_iff_right List.not_mem_nil
  | applied key =>
    exact congrArg (Option.map Datum.time) (Table.find?_insertAll_perm h.applied key)
  | settled key =>
    refine congrArg (Option.map fun a : Admission => Datum.time a.time) ?_
    have hsettled : (Table.empty.insertAll (snap.seen.map fun e => (e.1, Admission.mk e.2 true))).find?
        key = (w.seen.table.find? key).filter Admission.settled := by
      rw [← Table.find?_keepIf w.seen.table fun _ a => a.settled]
      exact Table.find?_insertAll_perm ((h.seen.map _).trans (.of_eq w.seen.settled_map)) key
    show Option.filter _ ((Table.empty.insertAll _).find? key) = _
    rw [hsettled, Option.filter_filter]
    simp

theorem at?_restore (h : snap.Lists w) (hw : w.Tidy) (n : Nat) (s : Slot) :
    ((empty n).restore snap).1.at? s = w.at? s := at?_restore_of h hw.leads hw.versioned n s

/-! ## The order of what is taken in -/

/-- A world made of the versions of another one, with its lists in order. -/
structure Copies (r w : World) : Prop where
  versions : ∀ id g, r.flows.find? id = some g → w.flows.find? id = some g
  listed : r.flows.Listed
  ascending : r.flows.Ascending
  indexed : r.cursors.Indexed

theorem copies_empty (n : Nat) (w : World) : (empty n).Copies w where
  versions := fun _ _ h => by cases h
  listed := FlowStore.listed_empty
  ascending := FlowStore.ascending_empty
  indexed := CursorStore.indexed_empty

/-- Taking in versions of a world. -/
theorem Copies.accept (h : r.Copies w) {d : Definition} (hd : w.HasVersion d) :
    ({ r with flows := r.flows.accept d } : World).Copies w := by
  obtain ⟨g, rfl, hg⟩ := hd
  have hadmits : r.flows.Admits g := by
    intro g' hg'
    exact Option.some.inj ((h.versions g.id g' hg').symm.trans hg)
  refine ⟨fun id g' hg' => ?_, h.listed.accept hadmits, h.ascending.accept h.listed hadmits,
    h.indexed⟩
  rw [FlowStore.find?_accept] at hg'
  split at hg'
  · next hid => rw [hid, hg, hg']
  · exact h.versions id g' hg'

theorem Copies.replayAll (h : r.Copies w) (hl : ∀ d, .flow d ∈ l → w.HasVersion d) :
    (r.replayAll l).Copies w := by
  induction l generalizing r with
  | nil => exact h
  | cons e rest ih =>
    refine ih (r := r.replay e) ?_ fun d hd => hl d (List.mem_cons_of_mem e hd)
    cases e with
    | flow d => exact h.accept (hl d List.mem_cons_self)
    | cursor c =>
      unfold replay
      dsimp only
      split
      · exact ⟨h.versions, h.listed, h.ascending, h.indexed.put c⟩
      · exact h
    | _ => exact ⟨h.versions, h.listed, h.ascending, h.indexed⟩

theorem copies_restore (hflows : ∀ d ∈ snap.flows, w.HasVersion d) (n : Nat) :
    ((empty n).restore snap).1.Copies w := by
  have hfold : ∀ ds : List Definition, (∀ d ∈ ds, w.HasVersion d) → ∀ r : World, r.Copies w →
      ({ r with flows := ds.foldl FlowStore.accept r.flows } : World).Copies w := by
    intro ds
    induction ds with
    | nil => exact fun _ r h => h
    | cons d rest ih =>
      intro hds r h
      exact ih (fun d hd => hds d (List.mem_cons_of_mem _ hd)) _
        (h.accept (hds d List.mem_cons_self))
  have h := hfold snap.flows hflows (empty n) (copies_empty n w)
  exact ⟨h.versions, h.listed, h.ascending, h.indexed.restore _⟩

/-! ## Restored worlds -/

/-- A world in which another one is found again: the versions of its flows with their order in each
campaign, the statuses, the leads, the cursors with their timers and lists, the totals and what
occurred. Of the keys that pruning forgets there may be more. -/
structure Restores (r w : World) : Prop where
  versions : ∀ id, r.flows.find? id = w.flows.find? id
  /-- The versions of a campaign are the same, and in the same order unless there are so many that
  their numbers start over. -/
  history : ∀ campaign, (r.flows.history campaign).Perm (w.flows.history campaign) ∧
    ((w.flows.history campaign).length < 0x100000000 →
      r.flows.history campaign = w.flows.history campaign ∧
        r.flows.active? campaign = w.flows.active? campaign)
  campaigns : ∀ id, r.campaigns.find? id = w.campaigns.find? id
  leads : ∀ id, r.leads.find? id = w.leads.find? id
  cursors : ∀ key, r.cursors.find? key = w.cursors.find? key
  timers : r.cursors.timers = w.cursors.timers
  ofLead : ∀ leadId, (r.cursors.ofLead leadId).Perm (w.cursors.ofLead leadId)
  totals : ∀ campaign, r.statistics.totals.find? campaign = w.statistics.totals.find? campaign
  firsts : ∀ f, f ∈ r.statistics.firsts ↔ f ∈ w.statistics.firsts
  applied : ∀ key t, w.statistics.applied.find? key = some t →
    r.statistics.applied.find? key = some t
  settled : ∀ key t, w.seen.table.find? key = some ⟨t, true⟩ →
    r.seen.table.find? key = some ⟨t, true⟩

theorem at?_settled_iff {key : String} {t : Instant} :
    w.at? (.settled key) = some (.time t) ↔ w.seen.table.find? key = some ⟨t, true⟩ := by
  simp only [at?, Option.map_eq_some_iff, Datum.time.injEq, Option.filter_eq_some_iff]
  constructor
  · rintro ⟨⟨time, settled⟩, ⟨ha, rfl⟩, rfl⟩
    exact ha
  · intro h
    exact ⟨_, ⟨h, rfl⟩, rfl⟩

theorem at?_applied_iff {key : String} {t : Instant} :
    w.at? (.applied key) = some (.time t) ↔ w.statistics.applied.find? key = some t := by
  simp [at?]

/-- Replaying entries that rebuild a world, on a base made of its versions, restores the world. -/
theorem Rebuilds.restores (h : r.Rebuilds l w) (hr : r.Copies w) (hw : w.Tidy)
    (hl : ∀ d, .flow d ∈ l → w.HasVersion d) : (r.replayAll l).Restores w := by
  have hcopies := hr.replayAll hl
  have hversions : ∀ id, (r.replayAll l).flows.find? id = w.flows.find? id := fun id =>
    Option.map_injective (fun _ _ => Datum.flow.inj) (h.at?_replayAll (s := .flow id) not_false)
  have hcursors : ∀ key, (r.replayAll l).cursors.find? key = w.cursors.find? key := fun key =>
    Option.map_injective (fun _ _ => Datum.cursor.inj) (h.at?_replayAll (s := .cursor key) not_false)
  have hmore : ∀ s x, w.at? s = some x → (r.replayAll l).at? s = some x := fun s x hx => by
    rw [World.at?_replayAll h.grounds]
    exact h.fleeting s x hx
  refine ⟨hversions, fun campaign => ⟨?_, fun hlength => ?_⟩, fun id => ?_, fun id => ?_, hcursors,
    ?_, ?_, fun campaign => ?_, fun f => ?_, fun key t ht => ?_, fun key t ht => ?_⟩
  · exact hcopies.listed.history_perm hw.listed hversions campaign
  · have hhistory := hcopies.ascending.history_eq hcopies.listed hw.listed hw.numbered hversions
      hlength
    exact ⟨hhistory, by simp only [FlowStore.active?, hhistory, funext hversions]⟩
  · exact Option.map_injective (fun _ _ => Datum.status.inj)
      (h.at?_replayAll (s := .campaign id) not_false)
  · exact Option.map_injective (fun _ _ => Datum.lead.inj)
      (h.at?_replayAll (s := .lead id) not_false)
  · exact hcopies.indexed.timers_eq hw.indexed hcursors
  · exact hcopies.indexed.ofLead_perm hw.indexed hcursors
  · exact Option.map_injective (fun _ _ => Datum.totals.inj)
      (h.at?_replayAll (s := .totals campaign) not_false)
  · have hfirst := h.at?_replayAll (s := .first f) not_false
    simp only [at?] at hfirst
    split at hfirst <;> split at hfirst <;> simp_all
  · exact at?_applied_iff.1 (hmore _ _ (at?_applied_iff.2 ht))
  · exact at?_settled_iff.1 (hmore _ _ (at?_settled_iff.2 ht))

end World

end MailCampaign
