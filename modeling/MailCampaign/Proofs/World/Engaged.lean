import MailCampaign.Proofs.Cursor.Index
import MailCampaign.Proofs.World.Deed

/-!
# Engagement and what is written of it

Engagement is counted twice, in the totals of a campaign and on cursors. An event is written down first
with the totals, its key and whether it was the first of its kind, then with each cursor of its lead.
All that is written says what the world knows after the event was counted. Deeds without interruptions
leave the engagement level, and what they write says it again.
-/

namespace MailCampaign

/-- What totals say of engagement with the mails of a campaign. -/
def Totals.engagement (t : Totals) : Totals where
  opens := t.opens
  uniqueOpens := t.uniqueOpens
  clicks := t.clicks
  uniqueClicks := t.uniqueClicks
  replies := t.replies
  bounces := t.bounces
  unsubscribes := t.unsubscribes

/-- What a cursor has counted of engagement. -/
def Counters.engagement (c : Counters) : Counters where
  opens := c.opens
  clicks := c.clicks
  replies := c.replies

theorem Totals.engagement_finish (t : Totals) (state : CursorState) :
    (t.finish state).engagement = t.engagement := by
  cases state <;> rfl

namespace World

variable {w v u : World} {e : Engagement} {s : Statistics} {c d : Cursor} {key : CursorKey}
  {campaign : Uuid} {now : Instant} {mails : Prop}

/-- The engagement in a campaign. -/
def engagedIn (w : World) (campaign : Uuid) : Totals := (w.statistics.of campaign).engagement

/-- The engagement counted on the cursor of a key. -/
def engagedOn (w : World) (key : CursorKey) : Option Counters :=
  (w.cursors.find? key).map fun c => c.counters.engagement

/-- An entry that says of engagement what a world knows, of a campaign or of a cursor. -/
inductive Affirms (w : World) : Entry → Prop
  | cursor {c : Cursor} : w.engagedOn c.key = some c.counters.engagement → Affirms w (.cursor c)
  | stats {campaign : Uuid} {totals : Totals} (applied : Option (String × Instant))
      (unique : Option (String × EngagementKind)) : w.engagedIn campaign = totals.engagement →
      Affirms w (.stats campaign totals applied unique)

/-- A world of the same engagement. -/
structure SameEngagement (w v : World) : Prop where
  campaigns : ∀ campaign, v.engagedIn campaign = w.engagedIn campaign
  cursors : ∀ key, v.engagedOn key = w.engagedOn key

theorem SameEngagement.trans (h : w.SameEngagement v) (hu : v.SameEngagement u) :
    w.SameEngagement u :=
  ⟨fun campaign => (hu.campaigns campaign).trans (h.campaigns campaign),
    fun key => (hu.cursors key).trans (h.cursors key)⟩

theorem SameEngagement.symm (h : w.SameEngagement v) : v.SameEngagement w :=
  ⟨fun campaign => (h.campaigns campaign).symm, fun key => (h.cursors key).symm⟩

theorem Affirms.of_same {x : Entry} (hx : w.Affirms x) (h : w.SameEngagement v) : v.Affirms x := by
  cases hx with
  | cursor hc => exact .cursor ((h.cursors _).trans hc)
  | stats applied unique ht => exact .stats applied unique ((h.campaigns _).trans ht)

/-- A later world of the same engagement and seen keys, where all that was written affirms this. -/
structure Level (w v : World) : Prop extends w.SameEngagement v where
  seen : v.seen = w.seen
  entries : ∃ more, journaled v.trace = journaled w.trace ++ more ∧ ∀ x ∈ more, w.Affirms x

instance : IsPreorder World Level where
  refl := fun _ => ⟨⟨fun _ => rfl, fun _ => rfl⟩, rfl, [], by simp, by simp⟩
  trans := by
    intro w v u h h'
    obtain ⟨more, hmore, hw⟩ := h.entries
    obtain ⟨more', hmore', hv⟩ := h'.entries
    refine ⟨h.toSameEngagement.trans h'.toSameEngagement, h'.seen.trans h.seen, more ++ more',
      by rw [hmore', hmore, List.append_assoc], fun x hx => ?_⟩
    exact (List.mem_append.1 hx).elim (hw x) fun hx => (hv x hx).of_same h.toSameEngagement.symm

/-! ## Deeds -/

/-- Something goes out that is no entry. -/
theorem level_emit {x : Effect} (hx : ∀ entry, x ≠ .entry entry) : w.Level (w.emit x) :=
  ⟨⟨fun _ => rfl, fun _ => rfl⟩, rfl, [], by rw [journaled_emit w hx, List.append_nil], by simp⟩

/-- A stored cursor takes a form of the same engagement. -/
theorem level_storeCursor (hc : w.cursors.find? c.key = some c) (hkey : d.key = c.key)
    (hcounters : d.counters.engagement = c.counters.engagement) : w.Level (w.storeCursor c d) where
  campaigns := fun _ => rfl
  cursors := by
    intro key
    rw [engagedOn, find?_storeCursor]
    split
    · next hk => rw [engagedOn, hk, hkey, hc, Option.map_some, Option.map_some, hcounters]
    · rfl
  seen := rfl
  entries := by
    refine ⟨_, journaled_journal _ _, fun x hx => ?_⟩
    obtain rfl := List.mem_singleton.1 hx
    exact .cursor (by rw [engagedOn, hkey, hc, Option.map_some, hcounters])

/-- The statistics change, but not in what they say of engagement. -/
theorem level_statistics (hs : ∀ campaign, (s.of campaign).engagement = w.engagedIn campaign) :
    w.Level { w with statistics := s } :=
  ⟨⟨hs, fun _ => rfl⟩, rfl, [], (List.append_nil _).symm, by simp⟩

theorem level_journalTotals (campaign : Uuid) (applied : Option (String × Instant))
    (unique : Option (String × EngagementKind)) :
    w.Level (w.journalTotals campaign applied unique) := by
  refine ⟨⟨fun _ => rfl, fun _ => rfl⟩, rfl, _, journaled_journal _ _, fun x hx => ?_⟩
  obtain rfl := List.mem_singleton.1 hx
  exact .stats applied unique rfl

theorem level_countOutcome (w : World) (campaign : Uuid) (state : CursorState) :
    w.Level (w.countOutcome campaign state) := by
  have hcounted : w.Level { w with statistics := w.statistics.countOutcome campaign state } := by
    refine level_statistics fun campaign' => ?_
    by_cases hc : campaign' = campaign
    · rw [hc, of_finish, Totals.engagement_finish]
      rfl
    · simp [Statistics.countOutcome, Statistics.of, engagedIn, Table.find?_insert_of_ne, hc]
  unfold countOutcome
  dsimp only
  split
  · exact trans_of Level hcounted (level_journalTotals campaign none none)
  · exact hcounted

/-- A mail that was sent is no engagement. -/
theorem engagement_counted (he : e.kind = .sent) (c : Cursor) :
    (counted e c).counters.engagement = c.counters.engagement := by
  unfold counted
  split
  · rfl
  · rw [he]
    rfl

theorem level_countOnCursor (he : e.kind = .sent) (w : World) (key : CursorKey) :
    w.Level (countOnCursor e w key) := by
  unfold countOnCursor
  split
  · next c hc =>
    obtain rfl := CursorStore.key_eq_of_find? hc
    exact level_storeCursor hc (c.sameLead_counted e).key (engagement_counted he c)
  · exact refl_of Level w

theorem level_count (he : e.kind = .sent) (w : World) (key : CursorKey) (received : Instant) :
    w.Level (w.count e (some key) received) := by
  unfold count
  split
  · exact refl_of Level w
  · next v hv =>
    obtain ⟨s, hs, rfl⟩ := Option.map_eq_some_iff.1 hv
    have hcounted : w.Level { w with statistics := s } := by
      refine level_statistics fun campaign => ?_
      rw [Statistics.of_count hs]
      split
      · next hc =>
        rw [he, hc]
        rfl
      · rfl
    exact trans_of Level (trans_of Level hcounted (level_journalTotals _ _ _))
      (level_countOnCursor he _ key)

theorem Deed.level (h : w.Deed mails False v) : w.Level v := by
  cases h with
  | moved hc hd => exact level_storeCursor hc hd.key (congrArg Counters.engagement hd.counters)
  | ended campaign state => exact level_countOutcome w campaign state
  | told => exact level_emit fun _ h => by cases h
  | mailed c now => exact level_count rfl w c.key now
  | status _ _ h => exact h.elim
  | unsubscribed _ h => exact h.elim

/-! ## Counting an event -/

theorem find?_countOnCursor (e : Engagement) (w : World) (k key : CursorKey) :
    (countOnCursor e w k).cursors.find? key =
      if key = k then (w.cursors.find? key).map (counted e) else w.cursors.find? key := by
  unfold countOnCursor
  split
  · next c hc =>
    have hkey : (counted e c).key = k :=
      (c.sameLead_counted e).key.trans (CursorStore.key_eq_of_find? hc)
    rw [find?_storeCursor, hkey]
    refine if_ctx_congr Iff.rfl (fun hk => ?_) fun _ => rfl
    rw [hk, hc, Option.map_some]
  · next hc =>
    split
    · next hk => rw [hk, hc, Option.map_none]
    · rfl

/-- An event is counted once on each cursor of a list. -/
theorem find?_countOnCursors (e : Engagement) {keys : List CursorKey} (hkeys : keys.Nodup)
    (w : World) (key : CursorKey) :
    (keys.foldl (countOnCursor e) w).cursors.find? key =
      if key ∈ keys then (w.cursors.find? key).map (counted e) else w.cursors.find? key := by
  induction keys generalizing w with
  | nil => rfl
  | cons k rest ih =>
    obtain ⟨hk, hrest⟩ := List.nodup_cons.1 hkeys
    rw [List.foldl_cons, ih hrest, find?_countOnCursor]
    by_cases hkey : key = k
    · rw [if_neg (hkey ▸ hk), if_pos hkey, if_pos (hkey ▸ List.mem_cons_self)]
    · simp only [hkey, if_false, List.mem_cons, false_or]

/-- The statistics and the seen keys do not change on the way. -/
theorem countOnCursors_frame (e : Engagement) (keys : List CursorKey) (w : World) :
    (keys.foldl (countOnCursor e) w).statistics = w.statistics ∧
      (keys.foldl (countOnCursor e) w).seen = w.seen := by
  have hone : ∀ (w : World) (key : CursorKey), (countOnCursor e w key).statistics = w.statistics ∧
      (countOnCursor e w key).seen = w.seen := by
    intro w key
    unfold countOnCursor
    split <;> exact ⟨rfl, rfl⟩
  induction keys generalizing w with
  | nil => exact ⟨rfl, rfl⟩
  | cons key rest ih => exact ⟨(ih _).1.trans (hone w key).1, (ih _).2.trans (hone w key).2⟩

theorem seen_count (w : World) (e : Engagement) (only : Option CursorKey) (received : Instant) :
    (w.count e only received).seen = w.seen := by
  unfold count
  split
  · rfl
  · next v hv =>
    obtain ⟨s, -, rfl⟩ := Option.map_eq_some_iff.1 hv
    exact (countOnCursors_frame e _ _).2

/-- The cursors are written down as they are stored afterwards. -/
theorem journaled_countOnCursors (e : Engagement) {keys : List CursorKey} (hkeys : keys.Nodup)
    (w : World) :
    ∃ more, journaled (keys.foldl (countOnCursor e) w).trace = journaled w.trace ++ more ∧
      ∀ x ∈ more, ∃ d, x = .cursor d ∧
        (keys.foldl (countOnCursor e) w).cursors.find? d.key = some d := by
  induction keys generalizing w with
  | nil => exact ⟨[], (List.append_nil _).symm, by simp⟩
  | cons k rest ih =>
    obtain ⟨hk, hrest⟩ := List.nodup_cons.1 hkeys
    obtain ⟨more, hmore, hstored⟩ := ih hrest (countOnCursor e w k)
    cases hc : w.cursors.find? k with
    | none =>
      have hsame : countOnCursor e w k = w := by rw [countOnCursor, hc]
      rw [hsame] at hmore hstored
      rw [List.foldl_cons, hsame]
      exact ⟨more, hmore, hstored⟩
    | some c =>
      have hkey : (counted e c).key = k :=
        (c.sameLead_counted e).key.trans (CursorStore.key_eq_of_find? hc)
      have hone : countOnCursor e w k = w.storeCursor c (counted e c) := by rw [countOnCursor, hc]
      refine ⟨.cursor (counted e c) :: more, ?_, List.forall_mem_cons.2 ⟨⟨_, rfl, ?_⟩, hstored⟩⟩
      · rw [List.foldl_cons, hmore, hone, storeCursor, journaled_journal, List.append_assoc]
        rfl
      · rw [hkey, List.foldl_cons, find?_countOnCursors e hrest, if_neg hk, find?_countOnCursor,
          if_pos rfl, hc, Option.map_some]

/-- What counting an event does when its key was not counted before. -/
structure Counted (e : Engagement) (received : Instant) (w v : World) : Prop where
  statistics : w.statistics.count e received = some v.statistics
  cursors : ∀ key, v.cursors.find? key =
    if key.leadId = e.leadId then (w.cursors.find? key).map (counted e) else w.cursors.find? key
  entries : ∃ more, journaled v.trace = journaled w.trace ++
      .stats e.campaignId (v.statistics.of e.campaignId) (some (e.key, received))
        (if w.statistics.isFirst e then some (e.leadId, e.kind) else none) :: more ∧
    ∀ x ∈ more, ∃ d, x = .cursor d ∧ v.cursors.find? d.key = some d

theorem counted_count {received : Instant} (hw : w.cursors.Enlisted)
    (hnew : w.statistics.applied.find? e.key = none) :
    w.Counted e received (w.count e none received) := by
  cases hs : w.statistics.count e received with
  | none =>
    obtain ⟨t, ht⟩ := Statistics.count_eq_none_iff.1 hs
    rw [hnew] at ht
    cases ht
  | some s =>
    let v := { w with statistics := s }.journalTotals e.campaignId (some (e.key, received))
      (if w.statistics.isFirst e then some (e.leadId, e.kind) else none)
    let keys := w.cursors.ofLead e.leadId
    have hcount : w.count e none received = keys.foldl (countOnCursor e) v := by
      unfold count countTotals
      rw [hs]
      rfl
    have hframe := countOnCursors_frame e keys v
    have hnodup := hw.nodup e.leadId
    rw [hcount]
    refine ⟨by rw [hframe.1, hs]; rfl, fun key => ?_, ?_⟩
    · rw [find?_countOnCursors e hnodup]
      by_cases hlead : key.leadId = e.leadId
      · rw [if_pos hlead]
        cases hc : w.cursors.find? key with
        | none =>
          have hv : v.cursors.find? key = none := hc
          rw [hv]
          exact ite_self _
        | some c =>
          have hmem : key ∈ keys := (hw.mem_ofLead e.leadId key).2 ⟨hlead, by rw [hc]; rfl⟩
          have hv : v.cursors.find? key = some c := hc
          rw [if_pos hmem, hv]
      · have hnot : key ∉ keys := fun hmem => hlead ((hw.mem_ofLead e.leadId key).1 hmem).1
        rw [if_neg hnot, if_neg hlead]
        rfl
    · obtain ⟨more, hmore, hstored⟩ := journaled_countOnCursors e hnodup v
      refine ⟨more, ?_, hstored⟩
      rw [hmore, hframe.1]
      refine (congrArg (· ++ more) (journaled_journal _ _)).trans ?_
      rw [List.append_assoc]
      rfl

/-- A world in which the engagement is one event further: it is counted in its campaign, and on the
cursors of its lead there that run. -/
structure Engages (e : Engagement) (w v : World) : Prop where
  campaigns : ∀ campaign, v.engagedIn campaign =
    if campaign = e.campaignId then
      ((w.statistics.of campaign).count e.kind (w.statistics.isFirst e)).engagement
    else w.engagedIn campaign
  cursors : ∀ key, v.engagedOn key =
    if key.leadId = e.leadId then
      (w.cursors.find? key).map fun c => (counted e c).counters.engagement
    else w.engagedOn key

theorem Engages.of_same (h : w.Engages e v) (hu : v.SameEngagement u) : w.Engages e u where
  campaigns := fun campaign => (hu.campaigns campaign).trans (h.campaigns campaign)
  cursors := fun key => (hu.cursors key).trans (h.cursors key)

theorem Counted.engages {received : Instant} (h : w.Counted e received v) : w.Engages e v where
  campaigns := by
    intro campaign
    rw [engagedIn, Statistics.of_count h.statistics]
    split
    · next hc => rw [hc]
    · rfl
  cursors := by
    intro key
    rw [engagedOn, h.cursors]
    split
    · exact Option.map_map _ _ _
    · rfl

/-- What is written as an event is counted says what the world knows then. -/
theorem Counted.affirms {received : Instant} (h : w.Counted e received v) :
    ∃ unique rest, journaled v.trace = journaled w.trace ++
        .stats e.campaignId (v.statistics.of e.campaignId) (some (e.key, received)) unique :: rest ∧
      ∀ x ∈ Entry.stats e.campaignId (v.statistics.of e.campaignId) (some (e.key, received))
        unique :: rest, v.Affirms x := by
  obtain ⟨more, hmore, hstored⟩ := h.entries
  refine ⟨_, more, hmore, List.forall_mem_cons.2 ⟨.stats _ _ rfl, fun x hx => ?_⟩⟩
  obtain ⟨d, rfl, hd⟩ := hstored x hx
  exact .cursor (by rw [engagedOn, hd, Option.map_some])

/-- An event whose key was counted before changes nothing. -/
theorem count_again {received t : Instant} (h : w.statistics.applied.find? e.key = some t)
    (only : Option CursorKey) : w.count e only received = w := by
  unfold count countTotals
  rw [Statistics.count_eq_none_iff.2 ⟨t, h⟩]
  rfl

end World

end MailCampaign
