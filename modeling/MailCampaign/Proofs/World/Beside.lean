import MailCampaign.Proofs.Cursor.Tally
import MailCampaign.Proofs.World.Fired
import MailCampaign.Proofs.World.Posted

/-!
# What stays beside a cursor

A step of a cursor changes that cursor and the totals of its campaign. Everything else stays as it was:
the other cursors, the totals of the other campaigns, the flows, the leads and the status of campaigns.

1. A change for a cursor counts for the campaign of which the cursor was read. So this needs the cursor
   to be stored for that campaign, and it still is afterwards (`World.Confined`).
2. The lemmas follow the definitions of the moves. A move that a cursor refuses writes it down as it
   is.
-/

namespace MailCampaign

namespace World

/-- Worlds that differ in one cursor and the totals of one campaign at most. -/
structure Beside (key : CursorKey) (campaign : Uuid) (w v : World) : Prop where
  flows : v.flows = w.flows
  leads : v.leads = w.leads
  campaigns : v.campaigns = w.campaigns
  totals : ∀ other, other ≠ campaign → v.statistics.of other = w.statistics.of other
  cursors : ∀ other, other ≠ key → v.cursors.find? other = w.cursors.find? other

/-- As long as a cursor is stored for a campaign, nothing else changes, and it is stored for the same
lead in the same campaign. -/
def Confined (key : CursorKey) (campaign : Uuid) (w v : World) : Prop :=
  ∀ c, w.cursors.find? key = some c → c.campaignId = campaign →
    w.Beside key campaign v ∧ ∃ d, v.cursors.find? key = some d ∧ c.SameLead d

variable {key : CursorKey} {campaign : Uuid} {w v u : World} {c d : Cursor}

theorem Beside.refl (key : CursorKey) (campaign : Uuid) (w : World) : w.Beside key campaign w :=
  ⟨rfl, rfl, rfl, fun _ _ => rfl, fun _ _ => rfl⟩

theorem Beside.trans (h : w.Beside key campaign v) (h' : v.Beside key campaign u) :
    w.Beside key campaign u where
  flows := h'.flows.trans h.flows
  leads := h'.leads.trans h.leads
  campaigns := h'.campaigns.trans h.campaigns
  totals := fun other ho => (h'.totals other ho).trans (h.totals other ho)
  cursors := fun other ho => (h'.cursors other ho).trans (h.cursors other ho)

instance (key : CursorKey) (campaign : Uuid) : IsPreorder World (Confined key campaign) where
  refl := fun w c hc _ => ⟨.refl key campaign w, c, hc, .refl c⟩
  trans := by
    intro w v u h h' c hc hcampaign
    obtain ⟨hbeside, d, hd, hsame⟩ := h c hc hcampaign
    obtain ⟨hbeside', e, he, hsame'⟩ := h' d hd (hsame.campaignId.trans hcampaign)
    exact ⟨hbeside.trans hbeside', e, he, hsame.trans hsame'⟩

/-- A world that differs in nothing that is looked up. -/
theorem Confined.of_beside (h : w.Beside key campaign v) (hv : v.cursors = w.cursors) :
    w.Confined key campaign v := fun c hc _ => ⟨h, c, hv ▸ hc, .refl c⟩

/-- A stored cursor takes another form. -/
theorem confined_storeCursor (hc : w.cursors.find? c.key = some c) (hsame : c.SameLead d) :
    w.Confined c.key campaign (w.storeCursor c d) := by
  intro c' hc' _
  obtain rfl : c = c' := Option.some.inj (hc.symm.trans hc')
  refine ⟨⟨rfl, rfl, rfl, fun _ _ => rfl, fun other ho => ?_⟩, d, find?_storeCursor_self hc hsame.key,
    hsame⟩
  rw [find?_storeCursor, if_neg (hsame.key ▸ ho)]

theorem confined_report (c : Cursor) (milestone : Milestone) (nodeId : String) (now : Instant) :
    w.Confined key campaign (w.report c milestone nodeId now) :=
  .of_beside ⟨rfl, rfl, rfl, fun _ _ => rfl, fun _ _ => rfl⟩ rfl

theorem of_countOutcome_ne (s : Statistics) {other : Uuid} (state : CursorState)
    (ho : other ≠ campaign) : (s.countOutcome campaign state).of other = s.of other := by
  simp [Statistics.countOutcome, Statistics.of, Table.find?_insert_of_ne, ho]

theorem confined_countOutcome (state : CursorState) :
    w.Confined key campaign (w.countOutcome campaign state) := by
  have hcounted : w.Beside key campaign (w.countOutcome campaign state) ∧
      (w.countOutcome campaign state).cursors = w.cursors := by
    unfold countOutcome
    dsimp only
    split <;> exact ⟨⟨rfl, rfl, rfl, fun _ ho => of_countOutcome_ne _ state ho, fun _ _ => rfl⟩, rfl⟩
  exact .of_beside hcounted.1 hcounted.2

/-- Counting an event on cursors changes cursors only. -/
theorem countOnCursors_keeps (e : Engagement) (keys : List CursorKey) (w : World) :
    (keys.foldl (countOnCursor e) w).flows = w.flows ∧
      (keys.foldl (countOnCursor e) w).leads = w.leads ∧
      (keys.foldl (countOnCursor e) w).campaigns = w.campaigns := by
  induction keys generalizing w with
  | nil => exact ⟨rfl, rfl, rfl⟩
  | cons key rest ih =>
    obtain ⟨hflows, hleads, hcampaigns⟩ := ih (countOnCursor e w key)
    have hone : (countOnCursor e w key).flows = w.flows ∧ (countOnCursor e w key).leads = w.leads ∧
        (countOnCursor e w key).campaigns = w.campaigns := by
      unfold countOnCursor
      split <;> exact ⟨rfl, rfl, rfl⟩
    exact ⟨hflows.trans hone.1, hleads.trans hone.2.1, hcampaigns.trans hone.2.2⟩

/-- Counting an event changes the totals of its campaign and cursors only. -/
theorem count_keeps (w : World) (e : Engagement) (only : Option CursorKey) (received : Instant) :
    (w.count e only received).flows = w.flows ∧ (w.count e only received).leads = w.leads ∧
      (w.count e only received).campaigns = w.campaigns ∧
      ∀ other, other ≠ e.campaignId →
        (w.count e only received).statistics.of other = w.statistics.of other := by
  unfold count
  split
  · exact ⟨rfl, rfl, rfl, fun _ _ => rfl⟩
  · next v hv =>
    obtain ⟨s, hs, rfl⟩ := Option.map_eq_some_iff.1 hv
    have hkeeps := fun w => countOnCursors_keeps e (countingKeys w e only) w
    refine ⟨(hkeeps _).1, (hkeeps _).2.1, (hkeeps _).2.2, fun other ho => ?_⟩
    rw [(countOnCursors_frame e _ _).1]
    exact (Statistics.of_count hs other).trans (if_neg ho)

/-- Counting an event keeps the lists of leads and all that a test of cursors says, if it does not ask for
counters. -/
theorem ofLeadWhere_count (w : World) (e : Engagement) (only : Option CursorKey) (received : Instant)
    (leadId : String) {p : Cursor → Bool} (hp : ∀ c n, p { c with counters := n } = p c) :
    (w.count e only received).cursors.ofLeadWhere leadId p = w.cursors.ofLeadWhere leadId p := by
  have hcounted : ∀ c, p (counted e c) = p c := fun c => by rw [Cursor.counted_eq, hp]
  have hone : ∀ (w : World) (key : CursorKey),
      (countOnCursor e w key).cursors.ofLead leadId = w.cursors.ofLead leadId ∧
        ∀ k, ((countOnCursor e w key).cursors.find? k).any p = (w.cursors.find? k).any p := by
    refine fun w key => ⟨?_, fun k => ?_⟩
    · unfold countOnCursor
      split <;> rfl
    · rw [find?_countOnCursor]
      split
      · cases w.cursors.find? k with
        | none => rfl
        | some c => exact hcounted c
      · rfl
  have hall : ∀ (keys : List CursorKey) (w : World),
      (keys.foldl (countOnCursor e) w).cursors.ofLeadWhere leadId p =
        w.cursors.ofLeadWhere leadId p := by
    intro keys
    induction keys with
    | nil => exact fun _ => rfl
    | cons key rest ih =>
      refine fun w => (ih (countOnCursor e w key)).trans ?_
      unfold CursorStore.ofLeadWhere
      rw [(hone w key).1]
      exact List.filter_congr fun k _ => (hone w key).2 k
  unfold count
  split
  · rfl
  · next v hv =>
    obtain ⟨s, -, rfl⟩ := Option.map_eq_some_iff.1 hv
    exact hall _ _

/-- Counting an event of its campaign on a cursor. -/
theorem confined_count {e : Engagement} (he : e.campaignId = campaign) (received : Instant) :
    w.Confined key campaign (w.count e (some key) received) := by
  intro c hc _
  obtain ⟨hflows, hleads, hcampaigns, htotals⟩ := count_keeps w e (some key) received
  obtain ⟨n, hcounted⟩ := count_own hc e received
  refine ⟨⟨hflows, hleads, hcampaigns, fun other ho => htotals other (he ▸ ho), fun other ho => ?_⟩,
    _, hcounted, ⟨rfl, rfl, rfl⟩⟩
  unfold count
  split
  · rfl
  · next v hv =>
    obtain ⟨s, -, rfl⟩ := Option.map_eq_some_iff.1 hv
    refine (find?_countOnCursor e _ key other).trans ?_
    rw [if_neg ho]
    rfl

/-- A cursor written down once more. -/
theorem Kept.confined (h : w.Kept v) : w.Confined key campaign v := by
  cases h with
  | same => exact refl_of (Confined key campaign) w
  | @written c hc =>
    intro b hb _
    refine ⟨⟨rfl, rfl, rfl, fun _ _ => rfl, fun other _ => ?_⟩, b, ?_, .refl b⟩
    · rw [find?_storeCursor]
      split
      · next h => exact h ▸ hc.symm
      · rfl
    · rw [find?_storeCursor]
      split
      · next h => exact hc.symm.trans (h ▸ hb)
      · exact hb

end World

namespace Change

open World

variable {campaign : Uuid} {key : CursorKey} {node : Node} {b c d : Cursor} {g : Graph} {now : Instant}
  {w v : World}

/-! ## Moves -/

theorem report_confined {milestone : Milestone} {nodeId : String} {time : Instant} :
    (apply (·.report c milestone nodeId time)).Keeps (Confined key campaign) :=
  .apply fun _ => confined_report c milestone nodeId time

/-- A revision that leaves a cursor with its lead. -/
theorem revise_confined {f : Cursor → Except Fault Cursor}
    (hf : ∀ b d, f b = .ok d → b.SameLead d) : (revise key f).Keeps (Confined key campaign) := by
  intro w
  cases hb : w.cursors.find? key with
  | none =>
    rw [revise, on_bind_error (on_cursor_none hb)]
    exact refl_of (Confined key campaign) w
  | some b =>
    obtain rfl := CursorStore.key_eq_of_find? hb
    cases hd : f b with
    | error x =>
      rw [revise_error hb hd]
      exact confined_storeCursor hb (.refl b)
    | ok d =>
      rw [revise_ok hb hd]
      exact confined_storeCursor hb (hf b d hd)

theorem move_confined {state : CursorState} {outcome : String} {f : Cursor → Cursor}
    (hf : ∀ b : Cursor, b.SameLead (f b)) :
    (move key node state outcome now f).Keeps (Confined key campaign) := by
  refine revise_confined fun b d hd => ?_
  split at hd
  · cases hd
  · obtain ⟨-, rfl⟩ := running_of_permit hd
    have hlog : b.SameLead (b.log node.action.name outcome state now) := ⟨rfl, rfl, rfl⟩
    exact hlog.trans (hf _)

/-- The end of a cursor is counted for its campaign. -/
theorem finish_confined {nodeId : String} {state : CursorState} {milestone : Milestone}
    (hc : c.campaignId = campaign) :
    (finish c nodeId state milestone now).Keeps (Confined key campaign) := by
  subst hc
  exact Keeps.bind (.apply fun _ => trans_of (Confined key c.campaignId) (confined_countOutcome state)
    (confined_report c milestone nodeId now)) fun _ => .pure _

/-- A cursor takes another form, and what follows is confined. -/
theorem stored_confined {α : Type} {e : Change α} (hc : w.cursors.find? c.key = some c)
    (hsame : c.SameLead d) (he : e.Keeps (Confined c.key campaign)) :
    w.Confined c.key campaign (e.on (w.storeCursor c d)).2 :=
  trans_of (Confined c.key campaign) (confined_storeCursor hc hsame) (he _)

theorem fail_confined {reason : String} : (fail key reason now).Keeps (Confined key campaign) := by
  intro w c hc hcampaign
  unfold fail
  rcases revise_cases key _ w with ⟨x, v, hon, hv⟩ | ⟨b, d, hkey, hb, hd, hon⟩
  · rw [on_bind_error hon]
    exact hv.confined c hc hcampaign
  · rw [on_bind_ok hon]
    have hsame : b.SameLead d := by
      obtain ⟨-, rfl⟩ := running_of_permit hd
      exact ⟨rfl, rfl, rfl⟩
    subst hkey
    obtain rfl : b = c := Option.some.inj (hb.symm.trans hc)
    exact stored_confined hb hsame (finish_confined (hsame.campaignId.trans hcampaign)) b hc hcampaign

theorem cancel_confined {reason : String} :
    (cancel key reason now).Keeps (Confined key campaign) := by
  intro w c hc hcampaign
  obtain rfl := CursorStore.key_eq_of_find? hc
  unfold cancel
  rw [on_bind_ok (on_cursor_some hc)]
  cases ht : c.state.terminal with
  | true => exact confined_storeCursor hc (.refl c) c hc hcampaign
  | false =>
    rw [if_neg Bool.false_ne_true, on_bind_ok (on_apply _ w)]
    exact stored_confined hc (c.sameLead_canceled reason now)
      ((finish_confined hcampaign).discard.bind fun _ => .pure _) c hc hcampaign

theorem advance_confined {branch : Branch} {outcome : String} :
    (advance g c node branch outcome now).Keeps (Confined c.key c.campaignId) := by
  unfold advance
  split
  · next next _ =>
    have hmove : (move c.key node .active outcome now fun c => c.moveTo next.id).Keeps
        (Confined c.key c.campaignId) := move_confined fun _ => ⟨rfl, rfl, rfl⟩
    exact hmove.discard.bind fun _ => .pure _
  · have hmove : (move c.key node .completed outcome now Cursor.release).Keeps
        (Confined c.key c.campaignId) := move_confined fun _ => ⟨rfl, rfl, rfl⟩
    exact hmove.discard.bind fun _ => finish_confined rfl

theorem scheduleDelay_confined {wait : Wait} :
    (scheduleDelay c node wait now).Keeps (Confined c.key c.campaignId) := by
  refine Keeps.bind (.need _ _) fun fireAt => ?_
  have hmove : (move c.key node .waitingDelay "delay_scheduled" now
      fun c => { c with nextRun := some fireAt }).Keeps (Confined c.key c.campaignId) :=
    move_confined fun _ => ⟨rfl, rfl, rfl⟩
  exact hmove.discard.bind fun _ => report_confined.bind fun _ => .pure _

theorem reachGoal_confined : (reachGoal c node now).Keeps (Confined c.key c.campaignId) := by
  have hmove : (move c.key node .goalReached "goal_reached" now
      fun c => { c with goalReachedAt := some now }).Keeps (Confined c.key c.campaignId) :=
    move_confined fun _ => ⟨rfl, rfl, rfl⟩
  exact hmove.discard.bind fun _ => finish_confined rfl

/-! ## Conditions -/

theorem resolve_confined {k : Condition} {cause : Cause} :
    (resolve g c node k cause now).Keeps (Confined c.key c.campaignId) := by
  unfold resolve
  split
  · exact .pure _
  · split
    · exact .pure _
    · exact advance_confined.bind fun _ => report_confined.bind fun _ => .pure _

/-- A cursor takes another form and leaves its condition if that has an answer. -/
theorem resolved_confined {k : Condition} {cause : Cause} (hc : w.cursors.find? c.key = some c)
    (hsame : c.SameLead d) :
    w.Confined c.key c.campaignId ((resolve g d node k cause now).on (w.storeCursor c d)).2 := by
  have hresolve : (resolve g d node k cause now).Keeps (Confined d.key d.campaignId) :=
    resolve_confined
  rw [hsame.key, hsame.campaignId] at hresolve
  exact stored_confined hc hsame hresolve

theorem enterCondition_confined {k : Condition} :
    (enterCondition g c node k now).Keeps (Confined c.key c.campaignId) := by
  refine Keeps.bind (.need _ _) fun deadline w b hb hcampaign => ?_
  unfold move
  rcases revise_cases c.key _ w with ⟨x, v, hon, hv⟩ | ⟨b', d, hkey, hb', hd, hon⟩
  · rw [on_bind_error hon]
    exact hv.confined b hb hcampaign
  · rw [on_bind_ok hon]
    obtain rfl : b' = b := Option.some.inj (hb'.symm.trans (hkey ▸ hb))
    have hsame : b'.SameLead d := by
      split at hd
      · cases hd
      · obtain ⟨-, rfl⟩ := running_of_permit hd
        exact ⟨rfl, rfl, rfl⟩
    rw [← hkey, ← hcampaign]
    exact resolved_confined hb' hsame b' hb' rfl

theorem observe_confined {k : Condition} {e : Engagement} :
    (observe g c node k e now).Keeps (Confined c.key c.campaignId) := by
  unfold observe
  split
  · exact .pure _
  · intro w b hb hcampaign
    rw [on_bind_ok (on_cursor_some hb)]
    have hkey := CursorStore.key_eq_of_find? hb
    have hstored := hkey ▸ hb
    rw [← hkey, ← hcampaign]
    cases ho : observed e node now b with
    | none => exact confined_storeCursor hstored (.refl b) b hstored rfl
    | some new =>
      have hsame : b.SameLead new := by
        unfold observed at ho
        split at ho
        · split at ho
          · obtain rfl := Option.some.inj ho
            exact ⟨rfl, rfl, rfl⟩
          · cases ho
        · cases ho
      exact resolved_confined hstored hsame b hstored rfl

/-! ## Mails -/

theorem mailSent_confined {messageId : String} :
    (mailSent g c node messageId now).Keeps (Confined c.key c.campaignId) :=
  Keeps.bind (.apply fun _ => trans_of (Confined c.key c.campaignId)
      (confined_count (e := sentEvent c messageId now) rfl now)
      (confined_report c (.mailSent messageId) node.id now))
    fun _ => advance_confined

theorem mailFailed_confined {policy : RetryPolicy} {reason : String} :
    (mailFailed policy c node reason now).Keeps (Confined c.key c.campaignId) := by
  unfold mailFailed
  dsimp only
  split
  · exact fail_confined
  · refine Keeps.bind (.need _ _) fun retryAt => ?_
    have hmove : (move c.key node .waitingDelay "send_retry" now
        fun d => { d with retries := c.retries + 1, nextRun := some retryAt }).Keeps
        (Confined c.key c.campaignId) := move_confined fun _ => ⟨rfl, rfl, rfl⟩
    exact hmove.discard.bind fun _ => report_confined.bind fun _ => .pure _

theorem settleMail_confined {policy : RetryPolicy} {result : Except SendFault String} :
    (settleMail policy g c node now result).Keeps (Confined c.key c.campaignId) := by
  rcases result with (reason | reason) | messageId
  · exact mailFailed_confined
  · exact fail_confined
  · exact mailSent_confined

end Change

end MailCampaign
