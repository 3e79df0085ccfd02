import MailCampaign.Proofs.Cursor.Timers
import Mathlib.Data.Char
import Mathlib.Data.List.Lex
import Mathlib.Data.List.Sort
import Mathlib.Data.Prod.Lex

/-!
# The index of a store

The timers stand in a strict order and the list of each lead has the keys of its cursors, each once.
So the timers are determined by the cursors, and so are the lists of leads up to their order.
-/

namespace MailCampaign

namespace Timer

variable {t u : Timer} {l : List Timer}

/-- What decides between timers: the deadline, the id of the cursor, its version and its lead. -/
def rank (t : Timer) : Int ×ₗ Nat ×ₗ Nat ×ₗ List Char :=
  toLex (t.deadline.ticks,
    toLex (t.cursorId.value.val, toLex (t.key.flowId.value.val, t.key.leadId.toList)))

theorem before_iff : t.before u = true ↔ t.rank < u.rank := by
  have huuid : ∀ a b : Uuid, a = b ↔ a.value.val = b.value.val := by
    intro a b
    cases a; cases b
    simp [Fin.ext_iff]
  have hdeadline : t.deadline = u.deadline ↔ t.deadline.ticks = u.deadline.ticks :=
    ⟨congrArg _, Instant.ticks_inj⟩
  simp only [before, rank, CursorKey.before, Bool.or_eq_true, Bool.and_eq_true, beq_iff_eq,
    decide_eq_true_iff, Prod.Lex.toLex_lt_toLex, hdeadline, huuid]
  rfl

/-- No two timers come due in the same place. -/
theorem rank_inj (h : t.rank = u.rank) : t = u := by
  obtain ⟨d, ⟨c⟩, ⟨f⟩, l⟩ := t
  obtain ⟨d', ⟨c'⟩, ⟨f'⟩, l'⟩ := u
  simp only [rank, EmbeddingLike.apply_eq_iff_eq, Prod.mk.injEq, String.toList_inj] at h
  obtain ⟨hd, hc, hf, rfl⟩ := h
  obtain rfl := Instant.ticks_inj hd
  obtain rfl := Fin.ext hc
  obtain rfl := Fin.ext hf
  rfl

/-- Timers in the order in which they come due. -/
def Sorted (l : List Timer) : Prop := l.Pairwise fun t u => t.rank < u.rank

theorem mem_place : u ∈ t.place l ↔ u = t ∨ u ∈ l := by
  induction l with
  | nil => simp [place]
  | cons a rest ih =>
    unfold place
    split
    · next he => simp [he]
    · split
      · simp
      · simp [ih, or_left_comm]

theorem Sorted.nodup (h : Sorted l) : l.Nodup :=
  h.imp fun hlt he => absurd (he ▸ hlt) (lt_irrefl _)

/-- Timers that stand in order are given by which ones they are. -/
theorem Sorted.eq_of_mem_iff {l' : List Timer} (h : Sorted l) (h' : Sorted l')
    (hmem : ∀ u, u ∈ l ↔ u ∈ l') : l = l' := by
  have hperm := (List.perm_ext_iff_of_nodup h.nodup h'.nodup).2 hmem
  refine hperm.eq_of_pairwise (fun a b _ _ hab hba => ?_) h h'
  exact absurd (hab.trans hba) (lt_irrefl _)

theorem sorted_place (h : Sorted l) : Sorted (t.place l) := by
  induction l with
  | nil => exact List.pairwise_singleton _ _
  | cons a rest ih =>
    obtain ⟨ha, hrest⟩ := List.pairwise_cons.1 h
    unfold place
    split
    · exact h
    · next hne =>
      split
      · next hbefore =>
        have hlt := before_iff.1 hbefore
        refine List.pairwise_cons.2 ⟨List.forall_mem_cons.2 ⟨hlt, fun b hb => ?_⟩, h⟩
        exact hlt.trans (ha b hb)
      · next hnot =>
        refine List.pairwise_cons.2 ⟨fun b hb => ?_, ih hrest⟩
        rcases mem_place.1 hb with rfl | hb
        · have hge := not_lt.1 (mt before_iff.2 hnot)
          exact lt_of_le_of_ne hge fun he => hne (rank_inj he).symm
        · exact ha b hb

end Timer

namespace CursorStore

variable {s t : CursorStore} {c old new : Cursor}

/-- The lists of leads are those of the cursors. -/
structure Enlisted (s : CursorStore) : Prop where
  nodup : ∀ leadId, (s.ofLead leadId).Nodup
  mem_ofLead : ∀ leadId key, key ∈ s.ofLead leadId ↔
    key.leadId = leadId ∧ (s.find? key).isSome = true

/-- So are the timers. -/
structure Indexed (s : CursorStore) : Prop extends s.Enlisted where
  exact : s.TimersExact
  sorted : Timer.Sorted s.timers

theorem enlisted_empty : empty.Enlisted where
  nodup := fun _ => List.nodup_nil
  mem_ofLead := by
    intro leadId key
    rw [find?_empty]
    simp [ofLead, empty]

theorem indexed_empty : empty.Indexed := ⟨enlisted_empty, timersExact_empty, List.Pairwise.nil⟩

theorem sorted_withTimer {timers : List Timer} (h : Timer.Sorted timers) (c : Cursor) :
    Timer.Sorted (withTimer timers c) := by
  unfold withTimer
  split
  · exact Timer.sorted_place h
  · exact h

theorem sorted_withoutTimer {timers : List Timer} (h : Timer.Sorted timers) (c : Cursor) :
    Timer.Sorted (withoutTimer timers c) := by
  unfold withoutTimer
  split
  · exact h.sublist List.erase_sublist
  · exact h

theorem ofLead_addNew (s : CursorStore) (c : Cursor) (leadId : String) :
    (s.addNew c).ofLead leadId =
      if leadId = c.leadId then s.ofLead c.leadId ++ [c.key] else s.ofLead leadId := by
  unfold ofLead addNew
  rw [Table.find?_insert]
  split <;> rfl

theorem Enlisted.addNew (h : s.Enlisted) (hc : s.find? c.key = none) : (s.addNew c).Enlisted where
  nodup := by
    intro leadId
    rw [ofLead_addNew]
    split
    · refine List.nodup_append.2 ⟨h.nodup c.leadId, by simp, ?_⟩
      rintro a ha b hb rfl
      have hstored := ((h.mem_ofLead c.leadId a).1 ha).2
      rw [List.mem_singleton.1 hb, hc] at hstored
      cases hstored
    · exact h.nodup leadId
  mem_ofLead := by
    intro leadId key
    rw [ofLead_addNew, find?_addNew]
    by_cases hkey : key = c.key
    · subst hkey
      by_cases hlead : leadId = c.leadId
      · simp [hlead, Cursor.key]
      · have hother : ¬ c.leadId = leadId := fun e => hlead e.symm
        simp [hlead, hother, h.mem_ofLead, Cursor.key]
    · by_cases hlead : leadId = c.leadId
      · simp [hlead, hkey, h.mem_ofLead]
      · simp [hlead, hkey, h.mem_ofLead]

/-- A cursor in the place of another one changes no list. -/
theorem Enlisted.stay (h : s.Enlisted) (hlead : t.byLead = s.byLead)
    (hfind : ∀ key, t.find? key = if key = c.key then some c else s.find? key)
    (hc : (s.find? c.key).isSome = true) : t.Enlisted := by
  have hlists : ∀ leadId, t.ofLead leadId = s.ofLead leadId := fun leadId => by
    rw [ofLead, hlead]
    rfl
  refine ⟨fun leadId => hlists leadId ▸ h.nodup leadId, fun leadId key => ?_⟩
  rw [hlists, hfind, h.mem_ofLead]
  split
  · next hk => simp [hk, hc]
  · exact Iff.rfl

theorem Enlisted.put (h : s.Enlisted) (c : Cursor) : (s.put c).Enlisted := by
  cases hold : s.find? c.key with
  | some old =>
    have hput : s.put c = s.replace old c := by rw [CursorStore.put, hold]
    exact h.stay (by rw [hput]; rfl) (s.find?_put c) (by rw [hold]; rfl)
  | none =>
    have hput : s.put c = s.addNew c := by rw [CursorStore.put, hold]
    exact hput ▸ h.addNew hold

theorem Enlisted.amend (h : s.Enlisted) (hold : s.find? old.key = some old)
    (hkey : new.key = old.key) : (s.amend old new).Enlisted :=
  h.stay rfl (s.find?_amend old new) (by rw [hkey, hold]; rfl)

theorem Indexed.addNew (h : s.Indexed) (hc : s.find? c.key = none) : (s.addNew c).Indexed :=
  ⟨h.toEnlisted.addNew hc, h.exact.addNew hc, sorted_withTimer h.sorted c⟩

theorem Indexed.replace (h : s.Indexed) (hold : s.find? old.key = some old)
    (hkey : new.key = old.key) : (s.replace old new).Indexed :=
  ⟨h.toEnlisted.stay rfl (s.find?_replace old new) (by rw [hkey, hold]; rfl),
    h.exact.replace hold hkey, sorted_withTimer (sorted_withoutTimer h.sorted old) new⟩

theorem Indexed.amend (h : s.Indexed) (hold : s.find? old.key = some old) (hkey : new.key = old.key)
    (hid : new.id = old.id) : (s.amend old new).Indexed := by
  refine ⟨h.toEnlisted.amend hold hkey, h.exact.amend hold hkey hid, ?_⟩
  show Timer.Sorted (if _ then _ else _)
  split
  · exact h.sorted
  · exact sorted_withTimer (sorted_withoutTimer h.sorted _) new

theorem Indexed.put (h : s.Indexed) (c : Cursor) : (s.put c).Indexed := by
  unfold CursorStore.put
  split
  · next old hold =>
    have hkey := key_eq_of_find? hold
    exact h.replace (hkey.symm ▸ hold) hkey.symm
  · next hnone => exact h.addNew hnone

theorem Indexed.restore (h : s.Indexed) (cs : List Cursor) : (s.restore cs).Indexed := by
  unfold CursorStore.restore
  induction cs generalizing s with
  | nil => exact h
  | cons c rest ih => exact ih (h.put c)

/-- Stores with the same cursors have the same timers. -/
theorem Indexed.timers_eq (hs : s.Indexed) (ht : t.Indexed)
    (hfind : ∀ key, s.find? key = t.find? key) : s.timers = t.timers := by
  have hmem : ∀ u, u ∈ s.timers ↔ u ∈ t.timers := by
    intro u
    rw [hs.exact.mem_iff, ht.exact.mem_iff, hfind]
  exact hs.sorted.eq_of_mem_iff ht.sorted hmem

/-- Stores with the same cursors have the same keys for a lead. -/
theorem Indexed.ofLead_perm (hs : s.Indexed) (ht : t.Indexed)
    (hfind : ∀ key, s.find? key = t.find? key) (leadId : String) :
    (s.ofLead leadId).Perm (t.ofLead leadId) := by
  refine (List.perm_ext_iff_of_nodup (hs.nodup leadId) (ht.nodup leadId)).2 fun key => ?_
  rw [hs.mem_ofLead, ht.mem_ofLead, hfind]

/-- The cursors of a store have different keys. -/
theorem nodup_keys (s : CursorStore) : (s.all.map Cursor.key).Nodup := by
  have hkeys : s.all.map Cursor.key = s.cursors.toList.map Prod.fst := by
    refine List.map_map.trans (List.map_congr_left fun e he => ?_)
    exact s.keyed e.1 e.2 (s.cursors.mem_toList.1 he)
  rw [hkeys]
  exact s.cursors.distinct

/-- The listed keys of a lead whose cursors pass a test are those of its cursors that do. -/
theorem Indexed.ofLeadWhere_perm (h : s.Indexed) (leadId : String) (p : Cursor → Bool) :
    (s.ofLeadWhere leadId p).Perm
      ((s.all.filter fun c => c.leadId == leadId && p c).map Cursor.key) := by
  have hnodup : ((s.all.filter fun c => c.leadId == leadId && p c).map Cursor.key).Nodup :=
    s.nodup_keys.sublist (List.filter_sublist.map _)
  refine (List.perm_ext_iff_of_nodup ((h.nodup leadId).filter _) hnodup).2 fun key => ?_
  simp only [List.mem_filter, h.mem_ofLead, List.mem_map, Bool.and_eq_true,
    beq_iff_eq, mem_all]
  constructor
  · rintro ⟨⟨rfl, hstored⟩, hp⟩
    obtain ⟨c, hc⟩ := Option.isSome_iff_exists.1 hstored
    obtain rfl := key_eq_of_find? hc
    rw [hc] at hp
    exact ⟨c, ⟨hc, rfl, hp⟩, rfl⟩
  · rintro ⟨c, ⟨hc, rfl, hp⟩, rfl⟩
    exact ⟨⟨rfl, by rw [hc]; rfl⟩, by rw [hc]; exact hp⟩

/-- So a test of the keys holds as often as of those of these cursors. -/
theorem Indexed.countP_ofLeadWhere (h : s.Indexed) (leadId : String) (p : Cursor → Bool)
    (f : CursorKey → Bool) :
    (s.ofLeadWhere leadId p).countP f =
      s.all.countP fun c => c.leadId == leadId && p c && f c.key := by
  rw [(h.ofLeadWhere_perm leadId p).countP_eq, List.countP_map, List.countP_filter]
  exact List.countP_congr fun c _ => by simp [and_comm]

theorem Indexed.length_ofLeadWhere (h : s.Indexed) (leadId : String) (p : Cursor → Bool) :
    (s.ofLeadWhere leadId p).length = s.all.countP fun c => c.leadId == leadId && p c := by
  rw [(h.ofLeadWhere_perm leadId p).length_eq, List.length_map, List.countP_eq_length_filter]

end CursorStore

end MailCampaign
