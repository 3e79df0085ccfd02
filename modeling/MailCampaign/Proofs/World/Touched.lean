import MailCampaign.Proofs.World.Beside
import MailCampaign.Proofs.World.Ledger
import MailCampaign.Proofs.World.Unmailed

/-!
# What an event touches

An event is counted and then goes on its way, and each of the two reaches the cursors of its lead alone.

1. Counting it changes the totals of its campaign and the counters of running cursors of its lead there
   (`World.touched_count`). Where a cursor of these waited at a condition, a change for this cursor may
   follow (`World.Touched.step`).
2. Canceling a running cursor ends it and counts it for its campaign. So canceling the cursors of a list
   ends these and counts each of them once, and nothing else changes (`Change.cancelAll_halts`).
3. Counting an event makes no difference to which cursors run. So an event that stops its lead ends the
   cursors of the lead that ran, in all campaigns (`World.CanceledAt.halted`).
-/

namespace MailCampaign

open Change (canceled)

/-- Settling a key touches nothing but the seen keys and what is written. -/
theorem Change.settle_eq (key : String) (w : World) :
    ∃ seen trace, ((settle key).on w).2 = { w with seen, trace } ∧
      trace.filterMap Effect.submission? = w.submissions := by
  unfold settle
  rw [on_bind_ok (on_get w)]
  rcases w.seen.settle key with ⟨seen, _ | time⟩ <;> exact ⟨seen, _, rfl, rfl⟩

/-- What an event may make of a cursor: nothing, unless the cursor is one of its lead in its campaign
and runs, and nothing but other counters, unless the cursor waits at a condition. -/
def Cursor.TouchedBy (e : Engagement) (c d : Cursor) : Prop :=
  d = c ∨ c.leadId = e.leadId ∧ c.campaignId = e.campaignId ∧ c.state.terminal = false ∧
    (c.state = .waitingCondition ∨ d = { c with counters := d.counters })

namespace World

/-- What an event that does not stop its lead may make of a world. -/
structure Touched (e : Engagement) (w v : World) : Prop where
  flows : v.flows = w.flows
  leads : v.leads = w.leads
  campaigns : v.campaigns = w.campaigns
  totals : ∀ other, other ≠ e.campaignId → v.statistics.of other = w.statistics.of other
  stored : ∀ key c, w.cursors.find? key = some c →
    ∃ d, v.cursors.find? key = some d ∧ c.SameLead d ∧ c.TouchedBy e d
  unknown : ∀ key, w.cursors.find? key = none → v.cursors.find? key = none

variable {keys : List CursorKey} {key : CursorKey} {reason : String} {now : Instant} {w v u : World}
  {c : Cursor} {e : Engagement}

/-- The cursors of other leads stay as they are. -/
theorem Touched.others (h : w.Touched e v) (hkey : key.leadId ≠ e.leadId) :
    v.cursors.find? key = w.cursors.find? key := by
  cases hc : w.cursors.find? key with
  | none => exact h.unknown key hc
  | some c =>
    obtain ⟨d, hd, -, rfl | ⟨hlead, -⟩⟩ := h.stored key c hc
    · exact hd
    · obtain rfl := CursorStore.key_eq_of_find? hc
      exact absurd hlead hkey

/-- Letting a key in touches nothing. -/
theorem Touched.of_seen {seen : SeenKeys} (h : ({ w with seen } : World).Touched e v) :
    w.Touched e v := ⟨h.flows, h.leads, h.campaigns, h.totals, h.stored, h.unknown⟩

/-- Settling a key touches nothing. -/
theorem Touched.settled (h : w.Touched e v) (key : String) :
    w.Touched e ((Change.settle key).on v).2 := by
  obtain ⟨seen', trace, hv, -⟩ := Change.settle_eq key v
  rw [hv]
  exact ⟨h.flows, h.leads, h.campaigns, h.totals, h.stored, h.unknown⟩

/-- Counting an event finds the cursors that there are, and changes the counters of the running ones of
its lead in its campaign. -/
theorem find?_count_some (hw : w.cursors.Indexed) (hc : w.cursors.find? key = some c) (e : Engagement)
    (received : Instant) :
    ∃ d, (w.count e none received).cursors.find? key = some d ∧ d = { c with counters := d.counters } ∧
      (d = c ∨ c.leadId = e.leadId ∧ c.campaignId = e.campaignId ∧ c.state.terminal = false) := by
  cases hnew : w.countTotals e received with
  | none => exact ⟨c, by rw [count, hnew]; exact hc, rfl, .inl rfl⟩
  | some v =>
    have hfind := find?_count hw.toEnlisted (by rw [hnew]; rfl : (w.countTotals e received).isSome = true) key
    rw [hc, Option.map_some] at hfind
    by_cases hreached : c.leadId = e.leadId ∧ c.campaignId = e.campaignId ∧ c.state.terminal = false
    · rw [if_pos hreached] at hfind
      exact ⟨_, hfind, rfl, .inr hreached⟩
    · rw [if_neg hreached] at hfind
      exact ⟨c, hfind, rfl, .inl rfl⟩

/-- Counting an event touches what it may. -/
theorem touched_count (hw : w.cursors.Indexed) (e : Engagement) (received : Instant) :
    w.Touched e (w.count e none received) := by
  obtain ⟨hflows, hleads, hcampaigns, htotals⟩ := count_keeps w e none received
  refine ⟨hflows, hleads, hcampaigns, htotals, fun key c hc => ?_, fun key hnone => ?_⟩
  · obtain ⟨d, hd, hcounted, hreached⟩ := find?_count_some hw hc e received
    refine ⟨d, hd, hcounted ▸ ⟨rfl, rfl, rfl⟩, hreached.imp_right fun ⟨hlead, hcampaign, hr⟩ => ?_⟩
    exact ⟨hlead, hcampaign, hr, .inr hcounted⟩
  · cases hnew : w.countTotals e received with
    | none => rwa [count, hnew]
    | some v => rw [find?_count hw.toEnlisted (by rw [hnew]; rfl) key, hnone, Option.map_none]

/-- A change for a cursor that waited at a condition as the event came. -/
theorem Touched.step (h : w.Touched e v) (hc : w.cursors.find? key = some c)
    (hlead : c.leadId = e.leadId) (hcampaign : c.campaignId = e.campaignId)
    (hwaits : c.state = .waitingCondition) (hv : v.Confined key e.campaignId u) : w.Touched e u := by
  obtain ⟨b, hb, hsame, -⟩ := h.stored key c hc
  obtain ⟨hbeside, d, hd, hsame'⟩ := hv b hb (hsame.campaignId.trans hcampaign)
  refine ⟨hbeside.flows.trans h.flows, hbeside.leads.trans h.leads,
    hbeside.campaigns.trans h.campaigns,
    fun other ho => (hbeside.totals other ho).trans (h.totals other ho), fun k c' hc' => ?_,
    fun k hk => ?_⟩
  · by_cases hkey : k = key
    · subst hkey
      obtain rfl : c = c' := Option.some.inj (hc.symm.trans hc')
      exact ⟨d, hd, hsame.trans hsame', .inr ⟨hlead, hcampaign, by rw [hwaits]; rfl, .inl hwaits⟩⟩
    · rw [hbeside.cursors k hkey]
      exact h.stored k c' hc'
  · have hne : k ≠ key := by
      rintro rfl
      rw [hc] at hk
      cases hk
    rw [hbeside.cursors k hne]
    exact h.unknown k hk

/-! ## Stopping a lead -/

/-- What canceling the cursors of some keys makes of a world. -/
structure CanceledAt (keys : List CursorKey) (reason : String) (now : Instant) (w v : World) :
    Prop where
  flows : v.flows = w.flows
  leads : v.leads = w.leads
  campaigns : v.campaigns = w.campaigns
  seen : v.seen = w.seen
  submissions : v.submissions = w.submissions
  cursors : ∀ key, v.cursors.find? key =
    if key ∈ keys then (w.cursors.find? key).map (canceled reason now) else w.cursors.find? key
  totals : ∀ campaign, (v.statistics.of campaign).canceled = (w.statistics.of campaign).canceled +
    .ofNat (keys.countP fun key => (w.cursors.find? key).any (·.campaignId == campaign))

/-- Canceling a cursor and then others. -/
theorem CanceledAt.cons (h : w.CanceledAt [key] reason now v) (hnot : key ∉ keys)
    (h' : v.CanceledAt keys reason now u) : w.CanceledAt (key :: keys) reason now u where
  flows := h'.flows.trans h.flows
  leads := h'.leads.trans h.leads
  campaigns := h'.campaigns.trans h.campaigns
  seen := h'.seen.trans h.seen
  submissions := h'.submissions.trans h.submissions
  cursors := by
    intro k
    rw [h'.cursors, h.cursors]
    by_cases hk : k = key
    · rw [hk, if_neg hnot, if_pos List.mem_cons_self, if_pos List.mem_cons_self]
    · simp only [List.mem_cons, hk, List.not_mem_nil, or_false, if_false, false_or]
  totals := by
    intro campaign
    have hothers : keys.countP (fun k => (v.cursors.find? k).any (·.campaignId == campaign)) =
        keys.countP fun k => (w.cursors.find? k).any (·.campaignId == campaign) := by
      refine List.countP_congr fun k hk => ?_
      have hne : k ∉ [key] := fun h => hnot (List.mem_singleton.1 h ▸ hk)
      rw [h.cursors, if_neg hne]
    rw [h'.totals, h.totals, hothers, UInt64.add_assoc, ← UInt64.ofNat_add, List.countP_singleton,
      List.countP_cons, Nat.add_comm]

/-- An event is no cursor that was canceled. -/
theorem canceled_count (w : World) (e : Engagement) (only : Option CursorKey) (received : Instant)
    (campaign : Uuid) : ((w.count e only received).statistics.of campaign).canceled =
      (w.statistics.of campaign).canceled := by
  unfold count
  split
  · rfl
  · next v hv =>
    obtain ⟨s, hs, rfl⟩ := Option.map_eq_some_iff.1 hv
    rw [(countOnCursors_frame e _ _).1]
    refine (congrArg Totals.canceled (Statistics.of_count hs campaign)).trans ?_
    split
    · cases e.kind <;> rfl
    · rfl

end World

namespace Change

open World

variable {keys : List CursorKey} {reason : String} {now : Instant} {w v : World} {c : Cursor}
  {e : Engagement}

theorem cancel_halts (hc : w.cursors.find? c.key = some c) (hr : c.state.terminal = false)
    (reason : String) (now : Instant) :
    ∃ v, (cancel c.key reason now).on w = (.ok true, v) ∧ w.CanceledAt [c.key] reason now v := by
  let ended := w.storeCursor c (canceled reason now c)
  let counted := ended.countOutcome c.campaignId .canceled
  have hcursors : counted.cursors = ended.cursors := rfl
  have htotals : ∀ campaign, counted.statistics.of campaign =
      if campaign = c.campaignId then (w.statistics.of campaign).finish .canceled
      else w.statistics.of campaign := by
    intro campaign
    split
    · next h => exact h ▸ of_finish w.statistics c.campaignId .canceled
    · next h => exact of_countOutcome_ne w.statistics .canceled h
  refine ⟨counted.report c (.canceled reason) c.nodeId now, ?_, rfl, rfl, rfl, rfl, rfl,
    fun key => ?_, fun campaign => ?_⟩
  · unfold cancel
    rw [on_bind_ok (on_cursor_some hc), if_neg (by rw [hr]; nofun)]
    rfl
  · rw [cursors_report, hcursors, find?_storeCursor]
    simp only [List.mem_singleton]
    refine if_ctx_congr Iff.rfl (fun h => ?_) fun _ => rfl
    rw [h]
    exact (congrArg (Option.map (canceled reason now)) hc).symm
  · refine (congrArg Totals.canceled (htotals campaign)).trans ?_
    rw [List.countP_singleton, hc, Option.any_some]
    by_cases h : campaign = c.campaignId
    · subst h
      rw [if_pos rfl, beq_self_eq_true, if_pos rfl]
      rfl
    · rw [if_neg h, if_neg fun heq => h (beq_iff_eq.1 heq).symm]
      exact (UInt64.add_zero _).symm

/-- Canceling running cursors ends them and counts each for its campaign, and nothing else. -/
theorem cancelAll_halts (hnodup : keys.Nodup) (reason : String) (now : Instant)
    (hrun : ∀ key ∈ keys, ∃ c, w.cursors.find? key = some c ∧ c.state.terminal = false) :
    ∃ v, (cancelAll reason now keys).on w = (.ok keys.length, v) ∧ w.CanceledAt keys reason now v := by
  induction keys generalizing w with
  | nil => exact ⟨w, rfl, rfl, rfl, rfl, rfl, rfl, fun _ => rfl, fun _ => (UInt64.add_zero _).symm⟩
  | cons key rest ih =>
    obtain ⟨hnot, hrest⟩ := List.nodup_cons.1 hnodup
    obtain ⟨c, hc, hr⟩ := hrun key List.mem_cons_self
    obtain rfl := CursorStore.key_eq_of_find? hc
    obtain ⟨u, hon, hu⟩ := cancel_halts hc hr reason now
    have hothers : ∀ k ∈ rest, ∃ d, u.cursors.find? k = some d ∧ d.state.terminal = false := by
      intro k hmem
      obtain ⟨d, hd, hrun⟩ := hrun k (List.mem_cons_of_mem _ hmem)
      have hne : k ∉ [c.key] := fun h => hnot (List.mem_singleton.1 h ▸ hmem)
      exact ⟨d, by rw [hu.cursors, if_neg hne, hd], hrun⟩
    obtain ⟨v, hon', hv⟩ := ih hrest hothers
    refine ⟨v, ?_, hu.cons hnot hv⟩
    unfold cancelAll
    rw [on_bind_ok hon, on_bind_ok hon', on_pure]
    rfl

/-- Stopping a lead ends the cursors of the lead that run, and counts them in the report. -/
theorem haltLead_halts (hw : w.cursors.Enlisted) (e : Engagement) (now : Instant) :
    ∃ v, (haltLead e now).on w =
        (.ok { key := e.key, canceled := (w.cursors.running e.leadId).length }, v) ∧
      w.CanceledAt (w.cursors.running e.leadId) ("lead " ++ e.kind.name) now v := by
  have hrun : ∀ key ∈ w.cursors.running e.leadId,
      ∃ c, w.cursors.find? key = some c ∧ c.state.terminal = false := by
    intro key hmem
    obtain ⟨c, hc, hr⟩ := (Option.any_eq_true _ _).1 (List.mem_filter.1 hmem).2
    exact ⟨c, hc, by simpa using hr⟩
  have hnodup : (w.cursors.running e.leadId).Nodup := (hw.nodup e.leadId).filter _
  obtain ⟨v, hon, hv⟩ := cancelAll_halts hnodup ("lead " ++ e.kind.name) now hrun
  refine ⟨v, ?_, hv⟩
  unfold haltLead
  rw [on_bind_ok (on_get w), on_bind_ok hon, on_pure]

end Change

namespace World

/-- What an event that stops its lead makes of a world. -/
structure LeadHalted (e : Engagement) (w v : World) : Prop where
  flows : v.flows = w.flows
  leads : v.leads = w.leads
  campaigns : v.campaigns = w.campaigns
  submissions : v.submissions = w.submissions
  ended : ∀ key d, v.cursors.find? key = some d → d.leadId = e.leadId → d.state.terminal = true
  others : ∀ key, key.leadId ≠ e.leadId → v.cursors.find? key = w.cursors.find? key
  totals : ∀ campaign, (v.statistics.of campaign).canceled = (w.statistics.of campaign).canceled +
    .ofNat (w.cursors.all.countP fun c =>
      c.leadId == e.leadId && !c.state.terminal && c.campaignId == campaign)

variable {reason : String} {now received : Instant} {w v : World} {e : Engagement}

theorem LeadHalted.of_seen {seen : SeenKeys} (h : ({ w with seen } : World).LeadHalted e v) :
    w.LeadHalted e v := ⟨h.flows, h.leads, h.campaigns, h.submissions, h.ended, h.others, h.totals⟩

theorem LeadHalted.settled (h : w.LeadHalted e v) (key : String) :
    w.LeadHalted e ((Change.settle key).on v).2 := by
  obtain ⟨seen', trace, hv, hsubmissions⟩ := Change.settle_eq key v
  rw [hv]
  exact ⟨h.flows, h.leads, h.campaigns, hsubmissions.trans h.submissions, h.ended, h.others, h.totals⟩

/-- Counting an event makes no difference to which cursors run. -/
theorem running_count (w : World) (e : Engagement) (received : Instant) (leadId : String) :
    (w.count e none received).cursors.running leadId = w.cursors.running leadId :=
  ofLeadWhere_count w e none received leadId fun _ _ => rfl

/-- An event that is counted and has the running cursors of its lead canceled stops the lead. -/
theorem CanceledAt.halted (hw : w.cursors.Indexed) (hkind : e.kind ≠ .sent)
    (h : (w.count e none received).CanceledAt (w.cursors.running e.leadId) reason now v) :
    w.LeadHalted e v := by
  have htouched := touched_count hw e received
  have henlisted := enlisted_count hw.toEnlisted e none received
  refine ⟨h.flows.trans htouched.flows, h.leads.trans htouched.leads,
    h.campaigns.trans htouched.campaigns, ?_, fun key d hd hlead => ?_, fun key hkey => ?_,
    fun campaign => ?_⟩
  · have hunmailed : w.Unmailed (fun _ => True) (w.count e none received) :=
      unmailed_count hkind trivial w none received
    exact h.submissions.trans hunmailed.submissions
  · rw [h.cursors] at hd
    split at hd
    · obtain ⟨c, -, rfl⟩ := Option.map_eq_some_iff.1 hd
      rfl
    · next hnot =>
      -- The cursor is on the list of its lead, so it is left out because it ended before.
      by_contra hrun
      have hlisted : key ∈ (w.count e none received).cursors.ofLead e.leadId :=
        (henlisted.mem_ofLead _ _).2 ⟨CursorStore.key_eq_of_find? hd ▸ hlead, by rw [hd]; rfl⟩
      refine hnot (running_count w e received e.leadId ▸ List.mem_filter.2 ⟨hlisted, ?_⟩)
      rw [hd]
      simpa using hrun
  · have hnot : key ∉ w.cursors.running e.leadId := fun hmem =>
      hkey ((hw.mem_ofLead _ _).1 (List.mem_filter.1 hmem).1).1
    rw [h.cursors, if_neg hnot, htouched.others hkey]
  · have hcampaign : ∀ key, ((w.count e none received).cursors.find? key).any
        (·.campaignId == campaign) = (w.cursors.find? key).any (·.campaignId == campaign) := by
      intro key
      cases hc : w.cursors.find? key with
      | none => rw [htouched.unknown key hc]
      | some c =>
        obtain ⟨d, hd, hsame, -⟩ := htouched.stored key c hc
        rw [hd, Option.any_some, Option.any_some, hsame.campaignId]
    have hcount : (w.cursors.running e.leadId).countP (fun key =>
        (w.cursors.find? key).any (·.campaignId == campaign)) = w.cursors.all.countP fun c =>
          c.leadId == e.leadId && !c.state.terminal && c.campaignId == campaign := by
      refine (hw.countP_ofLeadWhere e.leadId _ _).trans (List.countP_congr fun c hc => ?_)
      rw [CursorStore.mem_all.1 hc, Option.any_some]
    rw [h.totals, canceled_count]
    simp only [hcampaign, hcount]

end World

end MailCampaign
