import MailCampaign.Proofs.Cursor.Tally
import MailCampaign.Proofs.World.Registry
import MailCampaign.Proofs.World.Restore
import Mathlib.Data.List.Dedup

/-!
# Totals and the events behind them

The totals of a campaign are those of a list of events: of all that were counted since the
statistics were empty, an event left out when its key was counted before.

1. One more event adds one to the total of its kind, and to the unique one if its lead is new among
   the events of that kind in the campaign (`Sums.count`). What occurred once is never forgotten, so
   pruning leaves this as it is, and a snapshot brings it back (`Sums.restore`).
2. The order of events does not matter to the numbers of a list, so it does not to the totals.
3. The list of a lead holds each of its cursors once, so an event is counted once on each.
-/

namespace MailCampaign

variable {events : List Engagement} {e : Engagement} {campaign : Uuid} {kind : EngagementKind}

/-! ## The numbers of a list of events -/

/-- The events of a kind in a campaign. -/
def eventsOf (events : List Engagement) (campaign : Uuid) (kind : EngagementKind) :
    List Engagement :=
  events.filter fun e => e.campaignId == campaign && e.kind == kind

/-- Their leads, each once. -/
def leadsOf (events : List Engagement) (campaign : Uuid) (kind : EngagementKind) : List String :=
  ((eventsOf events campaign kind).map Engagement.leadId).dedup

theorem mem_leadsOf {leadId : String} :
    leadId ∈ leadsOf events campaign kind ↔
      ∃ e ∈ events, Statistics.kindOf e = ⟨campaign, leadId, kind⟩ := by
  simp only [leadsOf, eventsOf, List.mem_dedup, List.mem_map, List.mem_filter, Bool.and_eq_true,
    beq_iff_eq, Statistics.kindOf, FirstOfKind.mk.injEq]
  exact exists_congr fun e => ⟨fun ⟨⟨h, hc, hk⟩, hl⟩ => ⟨h, hc, hl, hk⟩,
    fun ⟨h, hc, hl, hk⟩ => ⟨⟨h, hc, hk⟩, hl⟩⟩

/-- There are no more leads than events. -/
theorem length_leadsOf_le (events : List Engagement) (campaign : Uuid) (kind : EngagementKind) :
    (leadsOf events campaign kind).length ≤ (eventsOf events campaign kind).length := by
  refine (List.dedup_sublist _).length_le.trans ?_
  rw [List.length_map]

theorem length_eventsOf_cons (e : Engagement) (events : List Engagement) (campaign : Uuid)
    (kind : EngagementKind) :
    (eventsOf (e :: events) campaign kind).length = (eventsOf events campaign kind).length +
      if e.campaignId = campaign ∧ e.kind = kind then 1 else 0 := by
  unfold eventsOf
  rw [List.filter_cons]
  by_cases h : e.campaignId = campaign ∧ e.kind = kind
  · simp [h]
  · rw [if_neg (by simpa using h), if_neg h, Nat.add_zero]

theorem length_leadsOf_cons (e : Engagement) (events : List Engagement) (campaign : Uuid)
    (kind : EngagementKind) :
    (leadsOf (e :: events) campaign kind).length = (leadsOf events campaign kind).length +
      if (e.campaignId = campaign ∧ e.kind = kind) ∧ e.leadId ∉ leadsOf events campaign kind
      then 1 else 0 := by
  have hmem : e.leadId ∈ leadsOf events campaign kind ↔
      e.leadId ∈ (eventsOf events campaign kind).map Engagement.leadId := List.mem_dedup
  by_cases h : e.campaignId = campaign ∧ e.kind = kind
  · have hcons : eventsOf (e :: events) campaign kind = e :: eventsOf events campaign kind :=
      List.filter_cons_of_pos (by simpa using h)
    by_cases hl : e.leadId ∈ leadsOf events campaign kind
    · rw [if_neg fun h => h.2 hl, leadsOf, hcons, List.map_cons, List.dedup_cons_of_mem (hmem.1 hl)]
      rfl
    · rw [if_pos ⟨h, hl⟩, leadsOf, hcons, List.map_cons,
        List.dedup_cons_of_notMem fun hm => hl (hmem.2 hm)]
      rfl
  · rw [if_neg fun h' => h h'.1, leadsOf, eventsOf, List.filter_cons_of_neg (by simpa using h)]
    rfl

theorem eventsOf_perm {l : List Engagement} (h : events.Perm l) (campaign : Uuid)
    (kind : EngagementKind) : (eventsOf events campaign kind).Perm (eventsOf l campaign kind) :=
  h.filter _

theorem leadsOf_perm {l : List Engagement} (h : events.Perm l) (campaign : Uuid)
    (kind : EngagementKind) : (leadsOf events campaign kind).Perm (leadsOf l campaign kind) :=
  ((eventsOf_perm h campaign kind).map _).dedup

/-! ## Totals -/

/-- The unique total of a kind of event, of the kinds that have one. -/
def Totals.uniqueOf (t : Totals) : EngagementKind → Option UInt64
  | .opened => some t.uniqueOpens
  | .clicked => some t.uniqueClicks
  | _ => none

theorem Totals.uniqueOf_count (t : Totals) (kind counted : EngagementKind) (first : Bool) :
    (t.count counted first).uniqueOf kind =
      (t.uniqueOf kind).map (· + if kind = counted ∧ first = true then 1 else 0) := by
  cases kind <;> cases counted <;> cases first <;> simp [uniqueOf, count]

/-- Totals are made of the kinds of events, the unique ones and those that count cursors. -/
theorem Totals.ext_kinds {t u : Totals} (hkinds : ∀ kind, t.ofKind kind = u.ofKind kind)
    (hunique : ∀ kind, t.uniqueOf kind = u.uniqueOf kind) (houtcomes : t.outcomes = u.outcomes) :
    t = u := by
  have h1 := hkinds .sent
  have h2 := hkinds .opened
  have h3 := hkinds .clicked
  have h4 := hkinds .replied
  have h5 := hkinds .bounced
  have h6 := hkinds .unsubscribed
  have h7 := hunique .opened
  have h8 := hunique .clicked
  obtain ⟨⟩ := t
  obtain ⟨⟩ := u
  simp_all [ofKind, uniqueOf, outcomes]

/-- Statistics that have counted a list of events. -/
structure Statistics.Sums (s : Statistics) (events : List Engagement) : Prop where
  kinds : ∀ campaign kind,
    (s.of campaign).ofKind kind = .ofNat (eventsOf events campaign kind).length
  unique : ∀ campaign kind, ∀ n ∈ (s.of campaign).uniqueOf kind,
    n = .ofNat (leadsOf events campaign kind).length
  firsts : ∀ f, f ∈ s.firsts ↔ ∃ e ∈ events, kindOf e = f

namespace Statistics

variable {s t : Statistics}

theorem sums_empty : empty.Sums [] where
  kinds := fun _ kind => by cases kind <;> rfl
  unique := by
    intro campaign kind n hn
    cases kind <;> cases hn <;> rfl
  firsts := fun f => by simp [empty]

/-- One more event. -/
theorem Sums.count {received : Instant} (h : s.Sums events) (hs : s.count e received = some t) :
    t.Sums (e :: events) where
  kinds := by
    intro campaign kind
    rw [of_count hs, length_eventsOf_cons, UInt64.ofNat_add, ← h.kinds]
    by_cases hc : campaign = e.campaignId
    · rw [if_pos hc, Totals.ofKind_count, ← hc]
      by_cases hk : kind = e.kind
      · rw [if_pos hk, if_pos ⟨rfl, hk.symm⟩]
        rfl
      · rw [if_neg hk, if_neg fun h => hk h.2.symm]
        rfl
    · rw [if_neg hc, if_neg fun h => hc h.1.symm]
      exact (UInt64.add_zero _).symm
  unique := by
    intro campaign kind n hn
    rw [of_count hs] at hn
    rw [length_leadsOf_cons]
    have hfirst : s.isFirst e = true ↔ e.leadId ∉ leadsOf events e.campaignId e.kind := by
      rw [mem_leadsOf, ← h.firsts]
      simp [isFirst, kindOf]
    by_cases hc : campaign = e.campaignId
    · rw [if_pos hc, Totals.uniqueOf_count] at hn
      rw [← hc] at hfirst
      obtain ⟨m, hm, rfl⟩ := Option.mem_map.1 hn
      rw [h.unique campaign kind m hm, UInt64.ofNat_add]
      by_cases hk : kind = e.kind
      · by_cases hl : s.isFirst e = true
        · rw [if_pos ⟨hk, hl⟩, if_pos ⟨⟨hc.symm, hk.symm⟩, hk ▸ hfirst.1 hl⟩]
          rfl
        · rw [if_neg fun h => hl h.2, if_neg fun h => hl (hfirst.2 (hk ▸ h.2))]
          rfl
      · rw [if_neg fun h => hk h.1, if_neg fun h => hk h.1.2.symm]
        rfl
    · rw [if_neg hc] at hn
      rw [if_neg fun h => hc h.1.1.symm, Nat.add_zero]
      exact h.unique campaign kind n hn
  firsts := by
    intro f
    unfold Statistics.count at hs
    split at hs
    · cases hs
    · obtain rfl := Option.some.inj hs
      rw [mem_remember, h.firsts]
      simp [or_comm, eq_comm]

/-- Statistics with the same totals of events, and of the same first occurrences. -/
theorem Sums.congr (h : s.Sums events)
    (hkinds : ∀ campaign kind, (t.of campaign).ofKind kind = (s.of campaign).ofKind kind)
    (hunique : ∀ campaign kind, (t.of campaign).uniqueOf kind = (s.of campaign).uniqueOf kind)
    (hfirsts : ∀ f, f ∈ t.firsts ↔ f ∈ s.firsts) : t.Sums events where
  kinds := fun campaign kind => (hkinds campaign kind).trans (h.kinds campaign kind)
  unique := fun campaign kind n hn => h.unique campaign kind n (hunique campaign kind ▸ hn)
  firsts := fun f => (hfirsts f).trans (h.firsts f)

theorem Sums.countOutcome (h : s.Sums events) (campaign : Uuid) (state : CursorState) :
    (s.countOutcome campaign state).Sums events := by
  have hof : ∀ campaign', (s.countOutcome campaign state).of campaign' =
      if campaign' = campaign then (s.of campaign).finish state else s.of campaign' := by
    intro campaign'
    by_cases hc : campaign' = campaign
    · rw [hc, World.of_finish, if_pos rfl]
    · simp [Statistics.countOutcome, of, Table.find?_insert_of_ne, hc]
  refine h.congr (fun campaign' kind => ?_) (fun campaign' kind => ?_) fun f => Iff.rfl
  · rw [hof]
    split
    · next hc => rw [Totals.ofKind_finish, hc]
    · rfl
  · rw [hof]
    split
    · next hc =>
      rw [hc]
      cases state <;> cases kind <;> rfl
    · rfl

theorem Sums.countEnrolled (h : s.Sums events) (campaign : Uuid) :
    (s.countEnrolled campaign).Sums events := by
  have hof : ∀ campaign', (s.countEnrolled campaign).of campaign' =
      if campaign' = campaign then (s.of campaign).enroll else s.of campaign' := by
    intro campaign'
    by_cases hc : campaign' = campaign
    · rw [hc, World.of_enroll, if_pos rfl]
    · simp [Statistics.countEnrolled, of, Table.find?_insert_of_ne, hc]
  refine h.congr (fun campaign' kind => ?_) (fun campaign' kind => ?_) fun f => Iff.rfl
  · rw [hof]
    split
    · next hc =>
      rw [hc]
      cases kind <;> rfl
    · rfl
  · rw [hof]
    split
    · next hc =>
      rw [hc]
      cases kind <;> rfl
    · rfl

/-- What is saved of statistics, in any order. -/
structure Lists (i : StatisticsImage) (s : Statistics) : Prop where
  campaigns : i.campaigns.Perm s.totals.toList
  applied : i.applied.Perm s.applied.toList
  firsts : i.firsts.Perm s.firsts

theorem lists_image (s : Statistics) : Lists s.image s := ⟨.refl _, .refl _, .refl _⟩

/-- Statistics that know no campaign and no first occurrence that others do not know, such as empty
ones or earlier ones. -/
structure Within (base s : Statistics) : Prop where
  totals : ∀ campaign, s.totals.find? campaign = none → base.totals.find? campaign = none
  firsts : ∀ f ∈ base.firsts, f ∈ s.firsts

theorem within_empty (s : Statistics) : Within empty s := ⟨fun _ _ => rfl, fun _ h => nomatch h⟩

/-- What is saved of statistics brings them back on top of such. -/
theorem Sums.restore {i : StatisticsImage} {base : Statistics} (h : s.Sums events)
    (hi : Lists i s) (hbase : Within base s) : (base.restore i).Sums events := by
  have hfind : ∀ campaign, (base.restore i).totals.find? campaign = s.totals.find? campaign := by
    intro campaign
    refine (find?_foldl Table.find? Prod.fst s.totals.find? ?_ base.totals campaign).trans ?_
    · rintro ⟨k, v⟩ he t campaign'
      have hv : s.totals.find? k = some v := s.totals.mem_toList.1 (hi.campaigns.mem_iff.1 he)
      rw [Table.find?_insert]
      refine if_ctx_congr Iff.rfl (fun hk => ?_) fun _ => rfl
      rw [hk, hv]
    · split
      · rfl
      · next hk =>
        cases hs : s.totals.find? campaign with
        | none => exact hbase.totals campaign hs
        | some v =>
          have hmem : (campaign, v) ∈ i.campaigns :=
            hi.campaigns.mem_iff.2 (s.totals.mem_toList.2 hs)
          exact absurd (List.mem_map_of_mem hmem) hk
  have hof : ∀ campaign, (base.restore i).of campaign = s.of campaign := fun campaign => by
    rw [of, of, hfind]
  refine h.congr (fun campaign kind => by rw [hof]) (fun campaign kind => by rw [hof]) fun f => ?_
  show f ∈ i.firsts.foldl remember base.firsts ↔ f ∈ s.firsts
  rw [mem_foldl_remember, hi.firsts.mem_iff]
  exact ⟨fun hf => hf.elim (hbase.firsts f) id, .inr⟩

theorem Sums.perm {l : List Engagement} (h : s.Sums events) (hl : events.Perm l) : s.Sums l where
  kinds := fun campaign kind => by
    rw [h.kinds, (eventsOf_perm hl campaign kind).length_eq]
  unique := fun campaign kind n hn => by
    rw [h.unique campaign kind n hn, (leadsOf_perm hl campaign kind).length_eq]
  firsts := fun f => by simp only [h.firsts, hl.mem_iff]

/-- A unique total is not greater than the total, as long as totals do not run over. -/
theorem Sums.unique_le (h : s.Sums events) (hlt : events.length < UInt64.size) (campaign : Uuid)
    (kind : EngagementKind) :
    ∀ n ∈ (s.of campaign).uniqueOf kind, n ≤ (s.of campaign).ofKind kind := by
  intro n hn
  have hleads := length_leadsOf_le events campaign kind
  have hevents : (eventsOf events campaign kind).length < UInt64.size :=
    (List.length_filter_le _ _).trans_lt hlt
  rw [h.unique campaign kind n hn, h.kinds,
    UInt64.ofNat_le_iff_le (hleads.trans_lt hevents) hevents]
  exact hleads

end Statistics

/-! ## Cursors -/

/-- A change of a store of cursors: a new cursor, one put in its place, or one changed in what does
not name it. -/
inductive CursorStore.Edits (s : CursorStore) : CursorStore → Prop
  | inserted {c : Cursor} {t : CursorStore} : s.insert c = .ok t → Edits s t
  | put (c : Cursor) : Edits s (s.put c)
  | updated (key : CursorKey) {f : Cursor → Cursor} : (∀ c, (f c).key = c.key) →
      Edits s (s.update key f)

theorem CursorStore.Edits.enlisted {s t : CursorStore} (h : s.Edits t) (hs : s.Enlisted) :
    t.Enlisted := by
  cases h with
  | inserted hi =>
    obtain ⟨hnew, rfl⟩ := insert_eq_ok_iff.1 hi
    exact hs.addNew hnew
  | put c => exact hs.put c
  | @updated key f hf =>
    cases hc : s.find? key with
    | some c =>
      rw [update_of_find? hc]
      exact hs.amend (key_eq_of_find? hc ▸ hc) (hf c)
    | none =>
      rw [update_of_none hc]
      exact hs

namespace World

variable {w v : World} {received : Instant}

theorem enlisted_count (hw : w.cursors.Enlisted) (e : Engagement) (only : Option CursorKey)
    (received : Instant) : (w.count e only received).cursors.Enlisted := by
  have hone : ∀ (w : World) (key : CursorKey), w.cursors.Enlisted →
      (countOnCursor e w key).cursors.Enlisted := by
    intro w key hw
    unfold countOnCursor
    split
    · next c hc =>
      exact hw.amend (CursorStore.key_eq_of_find? hc ▸ hc) (c.sameLead_counted e).key
    · exact hw
  unfold count
  split
  · exact hw
  · next v hv =>
    obtain ⟨s, -, rfl⟩ := Option.map_eq_some_iff.1 hv
    exact List.foldlRecOn (motive := fun v : World => v.cursors.Enlisted) _ _ hw
      fun v hv key _ => hone v key hv

theorem isSome_countTotals :
    (w.countTotals e received).isSome = true ↔ w.statistics.applied.find? e.key = none := by
  rw [countTotals, Option.isSome_map, ← Option.not_isNone, Bool.not_eq_true', ← Bool.not_eq_true,
    Option.isNone_iff_eq_none, Statistics.count_eq_none_iff, ← Option.ne_none_iff_exists']
  exact not_not

/-- An event that is counted adds one on each running cursor of its lead in its campaign. -/
theorem find?_count (hw : w.cursors.Enlisted) (hnew : (w.countTotals e received).isSome = true)
    (key : CursorKey) :
    (w.count e none received).cursors.find? key = (w.cursors.find? key).map fun c =>
      if c.leadId = e.leadId ∧ c.campaignId = e.campaignId ∧ c.state.terminal = false then
        { c with counters := c.counters.count e.kind }
      else c := by
  rw [(counted_count hw (isSome_countTotals.1 hnew)).cursors key]
  cases hc : w.cursors.find? key with
  | none => exact ite_self _
  | some c =>
    have hkey : key.leadId = c.leadId := congrArg _ (CursorStore.key_eq_of_find? hc).symm
    rw [hkey, Option.map_some, Option.map_some]
    by_cases hlead : c.leadId = e.leadId
    · rw [if_pos hlead]
      refine congrArg some ?_
      unfold counted
      by_cases hcampaign : c.campaignId = e.campaignId
      · cases c.state.terminal <;> simp [hlead, hcampaign]
      · simp [hcampaign]
    · rw [if_neg hlead, if_neg fun h => hlead h.1]

/-! ## Histories -/

/-- The worlds to which statistics can be brought from empty ones, each with the events that were
counted on the way, the latest first. Meanwhile cursors may be stored and changed in any way. -/
inductive Reckoned : List Engagement → World → Prop
  | start (n : Nat) : Reckoned [] (empty n)
  /-- An event is counted, on one cursor or on those of its lead. -/
  | counted {events : List Engagement} {w : World} {e : Engagement} (only : Option CursorKey)
      {received : Instant} : Reckoned events w → (w.countTotals e received).isSome = true →
      Reckoned (e :: events) (w.count e only received)
  /-- An event is not counted, as its key was counted before. -/
  | repeated {events : List Engagement} {w : World} {e : Engagement} (only : Option CursorKey)
      {received : Instant} : Reckoned events w → w.countTotals e received = none →
      Reckoned events (w.count e only received)
  | enrolled {events : List Engagement} {w : World} (campaign : Uuid) : Reckoned events w →
      Reckoned events (w.countEnrolled campaign)
  | ended {events : List Engagement} {w : World} (campaign : Uuid) (state : CursorState) :
      Reckoned events w → Reckoned events (w.countOutcome campaign state)
  | pruned {events : List Engagement} {w : World} (cutoff : Instant) : Reckoned events w →
      Reckoned events { w with statistics := w.statistics.prune cutoff }
  /-- What is saved of the statistics is loaded into empty ones, or into others that know no more.
  The store of cursors may be a new one. -/
  | restored {events : List Engagement} {w : World} {i : StatisticsImage} {base : Statistics}
      {cursors : CursorStore} : Reckoned events w → Statistics.Lists i w.statistics →
      base.Within w.statistics → cursors = w.cursors ∨ cursors = CursorStore.empty →
      Reckoned events { w with statistics := base.restore i, cursors }
  | stored {events : List Engagement} {w : World} {cursors : CursorStore} : Reckoned events w →
      w.cursors.Edits cursors → Reckoned events { w with cursors }

theorem Reckoned.enlisted (h : Reckoned events w) : w.cursors.Enlisted := by
  induction h with
  | start n => exact CursorStore.enlisted_empty
  | counted only _ _ ih => exact enlisted_count ih _ only _
  | repeated only _ _ ih => exact enlisted_count ih _ only _
  | enrolled campaign _ ih => exact ih
  | @ended _ w campaign state _ ih =>
    rw [(booked_countOutcome w campaign state).cursors]
    exact ih
  | pruned cutoff _ ih => exact ih
  | restored _ _ _ hcursors ih =>
    rcases hcursors with rfl | rfl
    · exact ih
    · exact CursorStore.enlisted_empty
  | stored _ hedits ih => exact hedits.enlisted ih

/-- The statistics have counted the events of their history. -/
theorem Reckoned.sums (h : Reckoned events w) : w.statistics.Sums events := by
  induction h with
  | start n => exact Statistics.sums_empty
  | @counted _ w e only received _ hnew ih =>
    rw [statistics_count]
    cases hs : w.statistics.count e received with
    | none => simp [countTotals, hs] at hnew
    | some s => exact ih.count hs
  | @repeated _ w e only received _ hold ih =>
    rw [statistics_count, Option.map_eq_none_iff.1 hold]
    exact ih
  | enrolled campaign _ ih => exact ih.countEnrolled campaign
  | @ended _ w campaign state _ ih =>
    have hstatistics : (w.countOutcome campaign state).statistics =
        w.statistics.countOutcome campaign state := by
      unfold countOutcome
      dsimp only
      split <;> rfl
    rw [hstatistics]
    exact ih.countOutcome campaign state
  | pruned cutoff _ ih => exact ⟨ih.kinds, ih.unique, ih.firsts⟩
  | restored _ hi hbase _ ih => exact ih.restore hi hbase
  | stored _ _ ih => exact ih

/-! ## Events in any order -/

/-- An event to be counted, with the cursor on which alone it is counted and the time of its
receipt. -/
structure Receipt where
  event : Engagement
  only : Option CursorKey
  received : Instant

/-- Counts events one after another. -/
def countEach (w : World) (l : List Receipt) : World :=
  l.foldl (fun w r => w.count r.event r.only r.received) w

theorem outcomes_count (w : World) (e : Engagement) (only : Option CursorKey) (received : Instant)
    (campaign : Uuid) : ((w.count e only received).statistics.of campaign).outcomes =
      (w.statistics.of campaign).outcomes := by
  rw [statistics_count]
  cases hs : w.statistics.count e received with
  | none => rfl
  | some s =>
    rw [Option.getD_some, Statistics.of_count hs]
    split
    · next hc => rw [Totals.outcomes_count, hc]
    · rfl

theorem outcomes_countEach (w : World) (l : List Receipt) (campaign : Uuid) :
    ((w.countEach l).statistics.of campaign).outcomes = (w.statistics.of campaign).outcomes := by
  induction l generalizing w with
  | nil => rfl
  | cons r rest ih => exact (ih _).trans (outcomes_count w _ _ _ campaign)

/-- The events of a list whose keys were not counted. -/
def newOf (w : World) (l : List Receipt) : List Engagement :=
  (l.filter fun r => (w.statistics.applied.find? r.event.key).isNone).map Receipt.event

theorem newOf_perm {l l' : List Receipt} (h : l.Perm l') (w : World) :
    (w.newOf l).Perm (w.newOf l') := (h.filter _).map _

/-- Of events with different keys those are counted whose keys were not counted at the start. -/
theorem Reckoned.countEach {l : List Receipt} (h : Reckoned events w)
    (hl : (l.map (·.event.key)).Nodup) :
    Reckoned ((w.newOf l).reverse ++ events) (w.countEach l) := by
  induction l generalizing events w with
  | nil => exact h
  | cons r rest ih =>
    obtain ⟨hr, hrest⟩ := List.nodup_cons.1 hl
    -- The keys of the rest are counted after this event as they were before.
    have hsame : (w.count r.event r.only r.received).newOf rest = w.newOf rest := by
      unfold newOf
      refine congrArg _ (List.filter_congr fun r' hr' => ?_)
      rw [applied_count, if_neg]
      intro hkey
      exact hr (List.mem_map.2 ⟨r', hr', hkey⟩)
    cases happlied : w.statistics.applied.find? r.event.key with
    | none =>
      have htotals : (w.countTotals r.event r.received).isSome = true :=
        isSome_countTotals.2 happlied
      have hnew := ih (h.counted r.only htotals) hrest
      have hcons : w.newOf (r :: rest) = r.event :: w.newOf rest := by
        rw [newOf, List.filter_cons_of_pos (by rw [happlied]; rfl)]
        rfl
      rw [hsame] at hnew
      rw [hcons, List.reverse_cons, List.append_assoc]
      exact hnew
    | some t =>
      have hnone : w.countTotals r.event r.received = none := by
        rw [countTotals, Statistics.count_eq_none_iff.2 ⟨t, happlied⟩, Option.map_none]
      have hold := ih (h.repeated r.only hnone) hrest
      have hcons : w.newOf (r :: rest) = w.newOf rest := by
        rw [newOf, List.filter_cons_of_neg (by rw [happlied]; exact Bool.false_ne_true)]
        rfl
      rw [hsame] at hold
      rw [hcons]
      exact hold

/-- Events with different keys lead to the same totals in any order. -/
theorem Reckoned.of_countEach_perm {l l' : List Receipt} (h : Reckoned events w)
    (hl : (l.map (·.event.key)).Nodup) (hperm : l.Perm l') (campaign : Uuid) :
    (w.countEach l).statistics.of campaign = (w.countEach l').statistics.of campaign := by
  have hsums := (h.countEach hl).sums
  have hsums' := (h.countEach ((hperm.map _).nodup_iff.1 hl)).sums
  have hevents : ((w.newOf l).reverse ++ events).Perm ((w.newOf l').reverse ++ events) := by
    refine List.Perm.append_right events ?_
    exact (List.reverse_perm _).trans ((newOf_perm hperm w).trans (List.reverse_perm _).symm)
  have hsame := hsums.perm hevents
  refine Totals.ext_kinds (fun kind => ?_) (fun kind => ?_) ?_
  · rw [hsame.kinds, hsums'.kinds]
  · have hone := hsame.unique campaign kind
    have hother := hsums'.unique campaign kind
    cases kind with
    | opened => exact congrArg some ((hone _ rfl).trans (hother _ rfl).symm)
    | clicked => exact congrArg some ((hone _ rfl).trans (hother _ rfl).symm)
    | _ => rfl
  · rw [outcomes_countEach, outcomes_countEach]

/-- **Totals are those of the events that were counted.** However the statistics were brought about
from empty ones, the total of each kind of event in each campaign is the number of events of that
kind that were counted, and the unique totals are the numbers of the leads of those, so they are not
greater. Events with different keys lead to the same totals in any order. An event that is counted
adds one on each running cursor of its lead in its campaign, and changes no other cursor. -/
theorem Reckoned.totals_of_events (h : Reckoned events w) :
    (∀ campaign,
      (∀ kind, (w.statistics.of campaign).ofKind kind =
        .ofNat (eventsOf events campaign kind).length) ∧
      (w.statistics.of campaign).uniqueOpens = .ofNat (leadsOf events campaign .opened).length ∧
      (w.statistics.of campaign).uniqueClicks = .ofNat (leadsOf events campaign .clicked).length ∧
      (∀ kind, (leadsOf events campaign kind).length ≤ (eventsOf events campaign kind).length) ∧
      (events.length < UInt64.size →
        (w.statistics.of campaign).uniqueOpens ≤ (w.statistics.of campaign).opens ∧
        (w.statistics.of campaign).uniqueClicks ≤ (w.statistics.of campaign).clicks)) ∧
    (∀ l l' : List Receipt, (l.map (·.event.key)).Nodup → l.Perm l' →
      ∀ campaign, (w.countEach l).statistics.of campaign =
        (w.countEach l').statistics.of campaign) ∧
    ∀ e received, (w.countTotals e received).isSome = true →
      ∀ key, (w.count e none received).cursors.find? key = (w.cursors.find? key).map fun c =>
        if c.leadId = e.leadId ∧ c.campaignId = e.campaignId ∧ c.state.terminal = false then
          { c with counters := c.counters.count e.kind }
        else c := by
  have hsums := h.sums
  refine ⟨fun campaign => ⟨hsums.kinds campaign, hsums.unique campaign .opened _ rfl,
    hsums.unique campaign .clicked _ rfl, length_leadsOf_le events campaign, fun hlt => ?_⟩,
    fun l l' hl hperm => h.of_countEach_perm hl hperm, fun e received => find?_count h.enlisted⟩
  exact ⟨hsums.unique_le hlt campaign .opened _ rfl, hsums.unique_le hlt campaign .clicked _ rfl⟩

/-- A lead opens a mail of a campaign. -/
def glance (key : String) : Engagement := ⟨"ada", .ofNat 7, .opened, .epoch, key, {}⟩

/-- A cursor of that lead that runs. -/
def glancer : Cursor where
  id := .ofNat 1
  flowId := .ofNat 0
  campaignId := .ofNat 7
  leadId := "ada"
  nodeId := "replied"
  state := .waitingCondition
  nextRun := none
  counters := {}
  retries := 0
  window := none
  enrolledAt := .epoch
  updatedAt := .epoch
  goalReachedAt := none
  failure := none
  history := []

/-- The lead has opened two mails; between them the statistics were saved and loaded. -/
def glanced : World :=
  let w := World.count { empty 0 with cursors := CursorStore.empty.put glancer } (glance "a") none
    .epoch
  World.count { w with statistics := Statistics.empty.restore w.statistics.image } (glance "b") none
    .epoch

theorem reckoned_glanced : Reckoned [glance "b", glance "a"] glanced :=
  (((Reckoned.start 0).stored (.put glancer)).counted (e := glance "a") none rfl).restored
    (Statistics.lists_image _) (Statistics.within_empty _) (.inl rfl)
    |>.counted none (by decide +kernel)

theorem Reckoned.totals_of_events_glanced :
    (glanced.statistics.of (.ofNat 7)).ofKind .opened = 2 ∧
    (glanced.statistics.of (.ofNat 7)).uniqueOpens = 1 ∧
    ((glanced.countEach [⟨glance "c", none, .epoch⟩, ⟨glance "d", none, .epoch⟩]).statistics.of
        (.ofNat 7) =
      (glanced.countEach [⟨glance "d", none, .epoch⟩, ⟨glance "c", none, .epoch⟩]).statistics.of
        (.ofNat 7)) ∧
    (glanced.count (glance "c") none .epoch).cursors.find? glancer.key =
      (glanced.cursors.find? glancer.key).map fun c =>
        if c.leadId = "ada" ∧ c.campaignId = .ofNat 7 ∧ c.state.terminal = false then
          { c with counters := c.counters.count .opened }
        else c := by
  have h := reckoned_glanced.totals_of_events
  obtain ⟨hkinds, hopens, -⟩ := h.1 (.ofNat 7)
  exact ⟨hkinds .opened, hopens, h.2.1 _ _ (by decide) (.swap _ _ _) _,
    h.2.2 (glance "c") .epoch (by decide +kernel) glancer.key⟩

end World

end MailCampaign
