import MailCampaign.Proofs.Cursor.Index

/-!
# Calls of a store

Whatever cursors are inserted, put, restored and updated, in any order, a store can be read off the calls
and the cursors.

1. Each call keeps the index (`Call.indexed`), and the lists of leads have the keys in the order of the
   first calls that stored them (`Call.lists`).
2. The due timers are those of the due cursors, as the timers stand in order (`dueTimers_eq`,
   `exists_due`).
3. So after any calls the indexes are exact (`calls_exact`).
-/

namespace MailCampaign

/-- The order in which cursors come due: by deadline, then by id, then by key. -/
def Cursor.DueBefore (c d : Cursor) : Prop := ∃ t ∈ c.timer?, ∃ u ∈ d.timer?, t.before u = true

namespace CursorStore

variable {s : CursorStore} {now : Instant}

/-- A call that changes a store. -/
inductive Call where
  | insert (c : Cursor)
  | put (c : Cursor)
  | restore (cs : List Cursor)
  /-- A change of a cursor that keeps its id, its version and its lead. -/
  | update (key : CursorKey) (f : Cursor → Cursor) (keeps : ∀ c, (f c).id = c.id ∧ (f c).key = c.key)

namespace Call

/-- What a call makes of a store. An insertion that is refused makes nothing of it. -/
def on (s : CursorStore) : Call → CursorStore
  | .insert c =>
    match s.insert c with
    | .ok t => t
    | .error _ => s
  | .put c => s.put c
  | .restore cs => s.restore cs
  | .update key f _ => s.update key f

/-- The keys under which a call stores a cursor that may be new. -/
def keys : Call → List CursorKey
  | .insert c | .put c => [c.key]
  | .restore cs => cs.map Cursor.key
  | .update _ _ _ => []

end Call

/-! ## One call -/

theorem insert_of_stored {c : Cursor} (h : (s.find? c.key).isSome = true) :
    s.insert c = .error (.clash (.enrolled c.key)) := by
  obtain ⟨d, hd⟩ := Option.isSome_iff_exists.1 h
  rw [insert, hd]

theorem on_insert (s : CursorStore) (c : Cursor) :
    Call.on s (.insert c) = if (s.find? c.key).isSome then s else s.addNew c := by
  rw [Call.on, CursorStore.insert]
  cases s.find? c.key <;> rfl

/-- Leaving a timer alone that stays what it was makes no difference. -/
theorem amend_eq_replace {old new : Cursor} (h : s.Indexed) (hold : s.find? old.key = some old)
    (hkey : new.key = old.key) (hid : new.id = old.id) : s.amend old new = s.replace old new := by
  have htimers : (s.amend old new).timers = (s.replace old new).timers :=
    (h.amend hold hkey hid).timers_eq (h.replace hold hkey) fun key => by
      rw [find?_amend, find?_replace]
  show CursorStore.mk _ _ (s.amend old new).timers _ = _
  simp only [htimers]
  rfl

theorem Call.indexed (h : s.Indexed) (call : Call) : (call.on s).Indexed := by
  cases call with
  | insert c =>
    rw [on_insert]
    split
    · exact h
    · next hc => exact h.addNew (by simpa using hc)
  | put c => exact h.put c
  | restore cs => exact h.restore cs
  | update key f keeps =>
    rw [Call.on]
    cases hc : s.find? key with
    | some c =>
      rw [update_of_find? hc]
      exact h.amend (key_eq_of_find? hc ▸ hc) (keeps c).2 (keeps c).1
    | none =>
      rw [update_of_none hc]
      exact h

/-- These are the keys of the stored cursors, and the lists of leads have them in this order. -/
structure Lists (s : CursorStore) (keys : List CursorKey) : Prop where
  nodup : keys.Nodup
  stored : ∀ key, (s.find? key).isSome = true ↔ key ∈ keys
  ofLead : ∀ leadId, s.ofLead leadId = keys.filter fun key => key.leadId == leadId

variable {keys : List CursorKey}

theorem Lists.addNew (h : s.Lists keys) {c : Cursor} (hc : (s.find? c.key).isSome = false) :
    (s.addNew c).Lists (keys ++ [c.key]) where
  nodup := by
    refine List.nodup_append.2 ⟨h.nodup, by simp, ?_⟩
    rintro key hkey _ hlast rfl
    rw [List.mem_singleton.1 hlast, ← h.stored, hc] at hkey
    cases hkey
  stored := by
    intro key
    rw [find?_addNew, List.mem_append, List.mem_singleton, ← h.stored key]
    by_cases hk : key = c.key
    · simp [hk]
    · simp [hk]
  ofLead := by
    intro leadId
    rw [ofLead_addNew, h.ofLead, h.ofLead, List.filter_append]
    by_cases hl : leadId = c.leadId
    · simp [hl, Cursor.key]
    · have hother : ¬c.leadId = leadId := fun e => hl e.symm
      simp [hl, hother, Cursor.key]

/-- A cursor in the place of another one changes no list. -/
theorem Lists.stay (h : s.Lists keys) {t : CursorStore} {c : Cursor} (hlead : t.byLead = s.byLead)
    (hfind : ∀ key, t.find? key = if key = c.key then some c else s.find? key)
    (hc : (s.find? c.key).isSome = true) : t.Lists keys where
  nodup := h.nodup
  stored := by
    intro key
    rw [hfind, ← h.stored key]
    split
    · next hk => simp [hk, hc]
    · exact Iff.rfl
  ofLead := by
    intro leadId
    rw [← h.ofLead leadId, CursorStore.ofLead, hlead]
    rfl

theorem eraseDups_concat (l : List CursorKey) (key : CursorKey) :
    (l ++ [key]).eraseDups = if key ∈ l then l.eraseDups else l.eraseDups ++ [key] := by
  rw [List.eraseDups_append]
  by_cases h : key ∈ l
  · simp [h, List.removeAll]
  · simp [h, List.removeAll, List.eraseDups_cons]

theorem Lists.put (h : s.Lists keys.eraseDups) (c : Cursor) :
    (s.put c).Lists (keys ++ [c.key]).eraseDups := by
  have hstored := h.stored c.key
  rw [List.mem_eraseDups] at hstored
  rw [eraseDups_concat]
  cases hc : s.find? c.key with
  | some old =>
    rw [if_pos (hstored.1 (by rw [hc]; rfl))]
    have hput : s.put c = s.replace old c := by rw [CursorStore.put, hc]
    exact h.stay (by rw [hput]; rfl) (s.find?_put c) (by rw [hc]; rfl)
  | none =>
    rw [if_neg fun hm => by simpa [hc] using hstored.2 hm]
    have hput : s.put c = s.addNew c := by rw [CursorStore.put, hc]
    exact hput ▸ h.addNew (by rw [hc]; rfl)

theorem Lists.restore (h : s.Lists keys.eraseDups) (cs : List Cursor) :
    (s.restore cs).Lists (keys ++ cs.map Cursor.key).eraseDups := by
  unfold CursorStore.restore
  induction cs generalizing s keys with
  | nil => simpa using h
  | cons c rest ih => simpa using ih (h.put c)

theorem Call.lists (h : s.Lists keys.eraseDups) (call : Call) :
    (call.on s).Lists (keys ++ call.keys).eraseDups := by
  cases call with
  | insert c =>
    have hstored := h.stored c.key
    rw [List.mem_eraseDups] at hstored
    rw [on_insert, Call.keys, eraseDups_concat]
    by_cases hc : (s.find? c.key).isSome = true
    · rw [if_pos hc, if_pos (hstored.1 hc)]
      exact h
    · rw [if_neg hc, if_neg fun hm => hc (hstored.2 hm)]
      exact h.addNew (by simpa using hc)
  | put c => exact h.put c
  | restore cs => exact h.restore cs
  | update key f keeps =>
    rw [Call.keys, List.append_nil, Call.on]
    cases hc : s.find? key with
    | some c =>
      have hkey : (f c).key = key := (keeps c).2.trans (key_eq_of_find? hc)
      rw [update_of_find? hc]
      exact h.stay rfl (s.find?_amend c (f c)) (by rw [hkey, hc]; rfl)
    | none =>
      rw [update_of_none hc]
      exact h

/-! ## What is due -/

theorem deadline_le_of_rank {t u : Timer} (h : t.rank < u.rank) : t.deadline ≤ u.deadline := by
  rw [Timer.rank, Timer.rank, Prod.Lex.toLex_lt_toLex] at h
  rw [Instant.le_iff]
  rcases h with h | h
  · exact h.le
  · exact h.1.le

/-- As the timers stand in order, all that are due stand before the first one that is not. -/
theorem dueTimers_eq (h : Timer.Sorted s.timers) (now : Instant) :
    s.dueTimers now = s.timers.filter (isDue now) := by
  unfold dueTimers
  generalize s.timers = timers at h
  induction timers with
  | nil => rfl
  | cons t rest ih =>
    obtain ⟨ht, hrest⟩ := List.pairwise_cons.1 h
    by_cases hdue : isDue now t = true
    · rw [List.takeWhile_cons_of_pos hdue, List.filter_cons_of_pos hdue, ih hrest]
    · have hlater : ∀ u ∈ rest, ¬isDue now u = true := by
        intro u hu
        have hle := deadline_le_of_rank (ht u hu)
        simp only [isDue, decide_eq_true_eq, Instant.le_iff] at hdue hle ⊢
        omega
      rw [List.takeWhile_cons_of_neg hdue, List.filter_cons_of_neg hdue, List.filter_eq_nil_iff.2 hlater]

theorem mem_dueTimers (h : s.Indexed) {t : Timer} :
    t ∈ s.dueTimers now ↔ t.deadline ≤ now ∧ ∃ c, s.find? t.key = some c ∧ c.timer? = some t := by
  rw [dueTimers_eq h.sorted, List.mem_filter, h.exact.mem_iff, isDue, decide_eq_true_iff, and_comm]

theorem sorted_dueTimers (h : s.Indexed) (now : Instant) : Timer.Sorted (s.dueTimers now) := by
  rw [dueTimers_eq h.sorted]
  exact h.sorted.filter _

/-- The cursors of timers, in their order. -/
def ofTimers (s : CursorStore) (timers : List Timer) : List Cursor :=
  timers.filterMap fun t => s.find? t.key

theorem map_ofTimers (h : s.TimersExact) {timers : List Timer} (hsub : ∀ t ∈ timers, t ∈ s.timers) :
    (s.ofTimers timers).map Cursor.timer? = timers.map some ∧
      (s.ofTimers timers).map Cursor.key = timers.map Timer.key := by
  induction timers with
  | nil => exact ⟨rfl, rfl⟩
  | cons t rest ih =>
    obtain ⟨htimers, hkeys⟩ := ih fun u hu => hsub u (List.mem_cons_of_mem t hu)
    obtain ⟨c, hc, ht⟩ := (h.mem_iff t).1 (hsub t List.mem_cons_self)
    have hcons : s.ofTimers (t :: rest) = c :: s.ofTimers rest := List.filterMap_cons_some hc
    rw [hcons, List.map_cons, List.map_cons, List.map_cons, List.map_cons, htimers, hkeys, ht,
      (Cursor.timer?_eq_some_iff.1 ht).2.2]
    exact ⟨rfl, rfl⟩

/-- The cursors of the due timers are those that are due. -/
theorem mem_ofTimers_due (h : s.Indexed) {c : Cursor} :
    c ∈ s.ofTimers (s.dueTimers now) ↔ c ∈ s.all ∧ c.nextRun.any (· ≤ now) = true := by
  rw [mem_all, ofTimers, List.mem_filterMap]
  constructor
  · rintro ⟨t, ht, hc⟩
    obtain ⟨hdue, d, hd, htimer⟩ := (mem_dueTimers h).1 ht
    obtain rfl := Option.some.inj (hd.symm.trans hc)
    obtain ⟨hrun, -, hkey⟩ := Cursor.timer?_eq_some_iff.1 htimer
    exact ⟨hkey ▸ hc, by simpa [hrun] using hdue⟩
  · rintro ⟨hc, hdue⟩
    cases hrun : c.nextRun with
    | none => simp [hrun] at hdue
    | some deadline =>
      have htimer : c.timer? = some ⟨deadline, c.id, c.key⟩ := by rw [Cursor.timer?, hrun]; rfl
      have hle : deadline ≤ now := by simpa [hrun] using hdue
      exact ⟨⟨deadline, c.id, c.key⟩, (mem_dueTimers h).2 ⟨hle, c, hc, htimer⟩, hc⟩

theorem nodup_all (s : CursorStore) : s.all.Nodup := by
  have hkeys : s.all.map Cursor.key = s.cursors.keys := by
    show (s.cursors.entries.map Prod.snd).map Cursor.key = s.cursors.entries.map Prod.fst
    rw [List.map_map]
    exact List.map_congr_left fun e he => s.keyed e.1 e.2 (s.cursors.mem_toList.1 he)
  exact (hkeys ▸ s.cursors.distinct : (s.all.map Cursor.key).Nodup).of_map

/-- The due cursors, in the order in which they come due. -/
theorem exists_due (h : s.Indexed) (now : Instant) :
    ∃ due : List Cursor, due.Perm (s.all.filter fun c => c.nextRun.any (· ≤ now)) ∧
      due.Pairwise Cursor.DueBefore ∧ s.dueCount now = due.length ∧
      ∀ limit, s.due now limit = (due.take (min limit (s.dueCount now))).map Cursor.key := by
  have hsub : ∀ t ∈ s.dueTimers now, t ∈ s.timers := fun t ht =>
    (h.exact.mem_iff t).2 ((mem_dueTimers h).1 ht).2
  obtain ⟨htimers, hkeys⟩ := map_ofTimers h.exact hsub
  have hlength : s.dueCount now = (s.ofTimers (s.dueTimers now)).length := by
    have := congrArg List.length htimers
    rw [List.length_map, List.length_map] at this
    exact this.symm
  refine ⟨s.ofTimers (s.dueTimers now), ?_, ?_, hlength, fun limit => ?_⟩
  · have hnodup : (s.dueTimers now).Nodup :=
      dueTimers_eq h.sorted now ▸ h.exact.nodup.filter (isDue now)
    have hcursors : (s.ofTimers (s.dueTimers now)).Nodup :=
      .of_map Cursor.timer? (htimers ▸ hnodup.map (Option.some_injective _))
    refine (List.perm_ext_iff_of_nodup hcursors (s.nodup_all.filter _)).2 fun c => ?_
    rw [List.mem_filter, mem_ofTimers_due h]
  · have hpairs : ((s.ofTimers (s.dueTimers now)).map Cursor.timer?).Pairwise
        fun o o' => ∃ t ∈ o, ∃ u ∈ o', t.before u = true := by
      rw [htimers, List.pairwise_map]
      exact (sorted_dueTimers h now).imp fun ht => ⟨_, rfl, _, rfl, Timer.before_iff.2 ht⟩
    exact (List.pairwise_map.1 hpairs).imp fun ht => ht
  · rw [due, List.map_take, List.map_take, hkeys]
    have hmin : min limit (s.dueCount now) = min limit ((s.dueTimers now).map Timer.key).length := by
      rw [List.length_map, dueCount]
    rw [hmin, ← List.take_eq_take_min]

/-! ## Any calls -/

theorem lists_empty : empty.Lists ([] : List CursorKey).eraseDups :=
  ⟨List.nodup_nil, fun key => by simp, fun leadId => rfl⟩

theorem calls_run (h : s.Indexed) (hl : s.Lists keys.eraseDups) (calls : List Call) :
    (calls.foldl Call.on s).Indexed ∧
      (calls.foldl Call.on s).Lists (keys ++ calls.flatMap Call.keys).eraseDups := by
  induction calls generalizing s keys with
  | nil => exact ⟨h, by simpa using hl⟩
  | cons call rest ih =>
    rw [List.foldl_cons, List.flatMap_cons, ← List.append_assoc]
    exact ih (call.indexed h) (call.lists hl)

/-- A store whose indexes are those of its cursors, with these keys in the order of first insertion. -/
structure Exact (s : CursorStore) (keys : List CursorKey) : Prop where
  /-- The timers are those of the cursors that have one, in order. -/
  timers : ∀ t, t ∈ s.timers ↔ ∃ c ∈ s.all, c.timer? = some t
  sorted : s.timers.Pairwise fun t u => t.before u = true
  /-- The list of a lead has its stored keys in the order of their first insertion, each once. -/
  stored : ∀ key, (s.find? key).isSome = true ↔ key ∈ keys
  nodup : keys.Nodup
  ofLead : ∀ leadId, s.ofLead leadId = keys.filter fun key => key.leadId == leadId
  /-- A cursor whose key is stored is refused. -/
  clash : ∀ c, (s.find? c.key).isSome = true →
    s.insert c = .error (.clash (.enrolled c.key)) ∧ Call.on s (.insert c) = s
  /-- The due cursors are counted, and the first of them are given. -/
  due : ∀ now, ∃ due : List Cursor, due.Perm (s.all.filter fun c => c.nextRun.any (· ≤ now)) ∧
    due.Pairwise Cursor.DueBefore ∧ s.dueCount now = due.length ∧
    ∀ limit, s.due now limit = (due.take (min limit (s.dueCount now))).map Cursor.key

/-- **The indexes of a store are exact.** Whatever cursors are inserted, put, restored and updated, in any
order, and also where a cursor takes the place of one with another id or deadline: the timers are those of
the stored cursors, the list of each lead has its keys in the order of their first insertion, a cursor
whose key is stored is refused, and the due keys are those of the due cursors by deadline, id and key. -/
theorem calls_exact (calls : List Call) :
    (calls.foldl Call.on empty).Exact (calls.flatMap Call.keys).eraseDups := by
  have hrun := calls_run indexed_empty lists_empty calls
  rw [List.nil_append] at hrun
  generalize calls.foldl Call.on empty = s at hrun
  obtain ⟨hindexed, hlists⟩ := hrun
  refine ⟨fun t => ?_, hindexed.sorted.imp fun ht => Timer.before_iff.2 ht, hlists.stored,
    hlists.nodup, hlists.ofLead, fun c hc => ⟨insert_of_stored hc, ?_⟩, exists_due hindexed⟩
  · rw [hindexed.exact.mem_iff]
    constructor
    · rintro ⟨c, hc, ht⟩
      exact ⟨c, mem_all.2 ((Cursor.timer?_eq_some_iff.1 ht).2.2 ▸ hc), ht⟩
    · rintro ⟨c, hc, ht⟩
      exact ⟨c, (Cursor.timer?_eq_some_iff.1 ht).2.2 ▸ mem_all.1 hc, ht⟩
  · rw [on_insert, if_pos hc]

end CursorStore

end MailCampaign
