import MailCampaign.Engine.Dispatch
import MailCampaign.Proofs.World.Follow
import MailCampaign.Proofs.World.Keep

/-!
# Changes without mail

A mail that goes out is told of in four places: in the trace, in the history of its cursor, in the
counter of its cursor and in the totals of its campaign. `Unmailed` says of two worlds that nothing
happened to any of them in between, and that of the keys for counting none but some given ones were
taken. All changes of the engine keep to it but the one that settles a mail that was sent.
-/

namespace MailCampaign

/-- The number of mails that the history of a cursor tells of. -/
def Cursor.sents (c : Cursor) : Nat := c.history.countP fun s => s.outcome == "sent"

/-- The mail that went out, if it is one. -/
def Effect.submission? : Effect → Option Submission
  | .submission s => some s
  | _ => none

/-- The mails that went out, the latest first. -/
def World.submissions (w : World) : List Submission := w.trace.filterMap Effect.submission?

/-- A cursor of the same lead with the same mails; a canceled one stays so. -/
structure Cursor.SameMail (c d : Cursor) : Prop where
  key : d.key = c.key
  campaignId : d.campaignId = c.campaignId
  sents : d.sents = c.sents
  emailsSent : d.counters.emailsSent = c.counters.emailsSent
  canceled : c.state = .canceled → d.state = .canceled

namespace Cursor.SameMail

variable {c d e : Cursor}

theorem refl (c : Cursor) : c.SameMail c := ⟨rfl, rfl, rfl, rfl, fun h => h⟩

theorem trans (h : c.SameMail d) (h' : d.SameMail e) : c.SameMail e :=
  ⟨h'.key.trans h.key, h'.campaignId.trans h.campaignId, h'.sents.trans h.sents,
    h'.emailsSent.trans h.emailsSent, fun hc => h'.canceled (h.canceled hc)⟩

/-- A line that tells of no mail. -/
theorem log {kind outcome : String} {state : CursorState} {now : Instant} (ho : outcome ≠ "sent")
    (hs : c.state ≠ .canceled) : c.SameMail (c.log kind outcome state now) := by
  refine ⟨rfl, rfl, ?_, rfl, fun hc => absurd hc hs⟩
  show (c.history ++ [_]).countP _ = _
  rw [List.countP_append, List.countP_singleton, if_neg (by simpa using ho), Nat.add_zero]
  rfl

theorem moveTo (c : Cursor) (nodeId : String) : c.SameMail (c.moveTo nodeId) :=
  ⟨rfl, rfl, rfl, rfl, fun h => h⟩

theorem release (c : Cursor) : c.SameMail c.release := ⟨rfl, rfl, rfl, rfl, fun h => h⟩

theorem counted {e : Engagement} (he : e.kind ≠ .sent) : c.SameMail (World.counted e c) := by
  unfold World.counted
  split
  · exact .refl c
  · refine ⟨rfl, rfl, rfl, ?_, fun h => h⟩
    cases hk : e.kind <;> first | rfl | exact absurd hk he

end Cursor.SameMail

theorem Statistics.applied_count {s t : Statistics} {e : Engagement} {received : Instant}
    (h : s.count e received = some t) : t.applied = s.applied.insert e.key received := by
  unfold Statistics.count at h
  split at h
  · cases h
  · exact (Option.some.inj h) ▸ rfl

namespace World

/-- Nothing about mails happened between two worlds, and no keys for counting were taken but some. -/
structure Unmailed (keys : String → Prop) (w v : World) : Prop where
  submissions : v.submissions = w.submissions
  stored : ∀ key c, w.cursors.find? key = some c →
    ∃ d, v.cursors.find? key = some d ∧ c.SameMail d
  entered : ∀ key d, w.cursors.find? key = none → v.cursors.find? key = some d →
    d.sents = 0 ∧ d.counters.emailsSent = 0
  totals : ∀ campaign, (v.statistics.of campaign).sent = (w.statistics.of campaign).sent
  applied : ∀ key, (v.statistics.applied.find? key).isSome = true →
    keys key ∨ (w.statistics.applied.find? key).isSome = true

variable {keys : String → Prop} {w v u : World}

theorem Unmailed.refl (w : World) : w.Unmailed keys w where
  submissions := rfl
  stored := fun _ c hc => ⟨c, hc, .refl c⟩
  entered := fun _ _ hn hd => by rw [hn] at hd; cases hd
  totals := fun _ => rfl
  applied := fun _ => .inr

theorem Unmailed.same (h : w.Unmailed keys v) {key : CursorKey} {c d : Cursor}
    (hc : w.cursors.find? key = some c) (hd : v.cursors.find? key = some d) : c.SameMail d := by
  obtain ⟨d', hd', hsame⟩ := h.stored key c hc
  exact Option.some.inj (hd'.symm.trans hd) ▸ hsame

theorem Unmailed.unknown (h : w.Unmailed keys v) {key : CursorKey}
    (hn : v.cursors.find? key = none) : w.cursors.find? key = none := by
  cases hc : w.cursors.find? key with
  | none => rfl
  | some c =>
    obtain ⟨d, hd, -⟩ := h.stored key c hc
    rw [hn] at hd
    cases hd

theorem Unmailed.trans (h : w.Unmailed keys v) (h' : v.Unmailed keys u) : w.Unmailed keys u where
  submissions := h'.submissions.trans h.submissions
  stored := by
    intro key c hc
    obtain ⟨d, hd, hsame⟩ := h.stored key c hc
    obtain ⟨e, he, hsame'⟩ := h'.stored key d hd
    exact ⟨e, he, hsame.trans hsame'⟩
  entered := by
    intro key e hn he
    cases hv : v.cursors.find? key with
    | none => exact h'.entered key e hv he
    | some d =>
      have hsame := h'.same hv he
      obtain ⟨hs, hc⟩ := h.entered key d hn hv
      exact ⟨hsame.sents.trans hs, hsame.emailsSent.trans hc⟩
  totals := fun campaign => (h'.totals campaign).trans (h.totals campaign)
  applied := fun key hk => (h'.applied key hk).elim .inl (h.applied key)

theorem Unmailed.mono {keys' : String → Prop} (h : w.Unmailed keys v)
    (hk : ∀ key, keys key → keys' key) : w.Unmailed keys' v :=
  { h with applied := fun key ha => (h.applied key ha).imp_left (hk key) }

instance : IsPreorder World (Unmailed keys) where
  refl := .refl
  trans := fun _ _ _ => .trans

/-! ## Small changes -/

/-- What leaves cursors and statistics alone and lets no mail out. -/
theorem Unmailed.of_eq (hs : v.submissions = w.submissions) (hc : v.cursors = w.cursors)
    (ht : v.statistics = w.statistics) : w.Unmailed keys v where
  submissions := hs
  stored := fun _ c h => ⟨c, hc ▸ h, .refl c⟩
  entered := fun _ _ hn hd => by rw [hc, hn] at hd; cases hd
  totals := fun _ => by rw [ht]
  applied := fun _ h => .inr (ht ▸ h)

theorem unmailed_journal (w : World) (e : Entry) : w.Unmailed keys (w.journal e) :=
  .of_eq rfl rfl rfl

theorem unmailed_report (w : World) (c : Cursor) (milestone : Milestone) (nodeId : String)
    (now : Instant) : w.Unmailed keys (w.report c milestone nodeId now) := .of_eq rfl rfl rfl

theorem unmailed_storeCursor {c d : Cursor} (hc : w.cursors.find? c.key = some c)
    (h : c.SameMail d) : w.Unmailed keys (w.storeCursor c d) where
  submissions := rfl
  stored := by
    intro key b hb
    rw [find?_storeCursor]
    split
    · next he =>
      rw [he, h.key, hc] at hb
      exact ⟨d, rfl, Option.some.inj hb ▸ h⟩
    · exact ⟨b, hb, .refl b⟩
  entered := by
    intro key b hn hb
    rw [find?_storeCursor] at hb
    split at hb
    · next he =>
      rw [he, h.key, hc] at hn
      cases hn
    · rw [hn] at hb
      cases hb
  totals := fun _ => rfl
  applied := fun _ => .inr

/-- A new cursor that has sent no mail. -/
theorem unmailed_addNew {c : Cursor} (nextId : Nat) (leads : Table String Lead)
    (hn : w.cursors.find? c.key = none) (hs : c.sents = 0) (he : c.counters.emailsSent = 0) :
    w.Unmailed keys { w with cursors := w.cursors.addNew c, nextId, leads } where
  submissions := rfl
  stored := by
    intro key b hb
    refine ⟨b, ?_, .refl b⟩
    refine (CursorStore.find?_addNew _ _ _).trans ((if_neg ?_).trans hb)
    rintro rfl
    rw [hn] at hb
    cases hb
  entered := by
    intro key d hnone hd
    rw [CursorStore.find?_addNew] at hd
    split at hd
    · exact Option.some.inj hd ▸ ⟨hs, he⟩
    · rw [hnone] at hd
      cases hd
  totals := fun _ => rfl
  applied := fun _ => .inr

/-- New totals of a campaign that say the same of mails. -/
theorem unmailed_totals (w : World) {campaign : Uuid} {totals : Totals}
    (h : totals.sent = (w.statistics.of campaign).sent) :
    w.Unmailed keys { w with statistics :=
      { w.statistics with totals := w.statistics.totals.insert campaign totals } } := by
  refine { (Unmailed.refl w : w.Unmailed keys w) with totals := fun campaign' => ?_ }
  show (((w.statistics.totals.insert campaign totals).find? campaign').getD {}).sent = _
  by_cases hc : campaign' = campaign
  · rw [hc, Table.find?_insert_self, Option.getD_some, h]
  · rw [Table.find?_insert_of_ne _ _ hc]
    rfl

theorem unmailed_countEnrolled (w : World) (campaign : Uuid) :
    w.Unmailed keys (w.countEnrolled campaign) := by
  refine Unmailed.trans (unmailed_totals w ?_) (unmailed_journal _ _)
  rfl

theorem unmailed_countOutcome (w : World) (campaign : Uuid) (state : CursorState) :
    w.Unmailed keys (w.countOutcome campaign state) := by
  have htotals : w.Unmailed keys
      { w with statistics := w.statistics.countOutcome campaign state } :=
    unmailed_totals w (by cases state <;> rfl)
  unfold countOutcome
  split
  · exact htotals.trans (unmailed_journal _ _)
  · exact htotals

/-! ## Counting events -/

theorem unmailed_countOnCursor {e : Engagement} (he : e.kind ≠ .sent) (w : World)
    (key : CursorKey) : w.Unmailed keys (countOnCursor e w key) := by
  unfold countOnCursor
  split
  · next c hc =>
    exact unmailed_storeCursor (CursorStore.key_eq_of_find? hc ▸ hc) (.counted he)
  · exact .refl w

theorem unmailed_count {e : Engagement} (he : e.kind ≠ .sent) (hk : keys e.key) (w : World)
    (only : Option CursorKey) (received : Instant) :
    w.Unmailed keys (w.count e only received) := by
  unfold count
  split
  · exact .refl w
  · next v hv =>
    have htotals : w.Unmailed keys v := by
      obtain ⟨s, hs, rfl⟩ := Option.map_eq_some_iff.1 hv
      refine Unmailed.trans (v := { w with statistics := s }) ?_ (unmailed_journal _ _)
      refine { (Unmailed.refl w : w.Unmailed keys w) with
        totals := fun campaign => ?_, applied := fun key h => ?_ }
      · show (s.of campaign).sent = _
        rw [Statistics.of_count hs]
        split
        · next hc =>
          rw [hc]
          cases hkind : e.kind <;> first | rfl | exact absurd hkind he
        · rfl
      · change (s.applied.find? key).isSome = true at h
        rw [Statistics.applied_count hs, Table.find?_insert] at h
        split at h
        · next hc => exact .inl (hc ▸ hk)
        · exact .inr h
    suffices ∀ (l : List CursorKey) (w : World), w.Unmailed keys (l.foldl (countOnCursor e) w) from
      htotals.trans (this _ v)
    intro l
    induction l with
    | nil => exact .refl
    | cons key rest ih => exact fun w => (unmailed_countOnCursor he w key).trans (ih _)

end World

namespace Change

open World

variable {keys : String → Prop} {key : CursorKey} {node : Node} {c : Cursor} {g : Graph}
  {now : Instant}

/-! ## Moves -/

theorem revise_unmailed {f : Cursor → Except Fault Cursor}
    (hf : ∀ c d, f c = .ok d → c.SameMail d) : (revise key f).Keeps (Unmailed keys) := by
  intro w
  unfold revise
  cases hc : w.cursors.find? key with
  | none =>
    rw [on_bind_error (on_cursor_none hc)]
    exact .refl w
  | some c =>
    have hkey := CursorStore.key_eq_of_find? hc ▸ hc
    rw [on_bind_ok (on_cursor_some hc)]
    cases hd : f c with
    | ok d => exact unmailed_storeCursor hkey (hf c d hd)
    | error x => exact unmailed_storeCursor hkey (.refl c)

/-- A permitted change of state does not start from the canceled one. -/
theorem not_canceled_of_permit {state : CursorState} {new d : Cursor}
    (h : permit c state new = .ok d) : c.state ≠ .canceled ∧ new = d := by
  unfold permit at h
  split at h
  · next hs =>
    refine ⟨fun hc => ?_, Except.ok.inj h⟩
    rw [hc, CursorState.mayBecome_of_terminal rfl] at hs
    cases hs
  · cases h

theorem move_unmailed {state : CursorState} {outcome : String} {f : Cursor → Cursor}
    (ho : outcome ≠ "sent") (hf : ∀ c : Cursor, c.SameMail (f c)) :
    (move key node state outcome now f).Keeps (Unmailed keys) := by
  refine revise_unmailed fun c d h => ?_
  split at h
  · cases h
  · obtain ⟨hc, rfl⟩ := not_canceled_of_permit h
    exact (Cursor.SameMail.log ho hc).trans (hf _)

theorem finish_unmailed {nodeId : String} {state : CursorState} {milestone : Milestone} :
    (finish c nodeId state milestone now).Keeps (Unmailed keys) :=
  (Keeps.apply fun w => (unmailed_countOutcome w _ _).trans (unmailed_report _ _ _ _ _)).bind
    fun _ => .pure _

theorem report_unmailed {milestone : Milestone} {nodeId : String} :
    (apply (·.report c milestone nodeId now)).Keeps (Unmailed keys) :=
  .apply fun w => unmailed_report w _ _ _ _

theorem fail_unmailed {reason : String} : (fail key reason now).Keeps (Unmailed keys) := by
  refine (revise_unmailed fun c d h => ?_).bind fun _ => finish_unmailed
  obtain ⟨hc, rfl⟩ := not_canceled_of_permit h
  exact (Cursor.SameMail.log (by decide) hc).trans ⟨rfl, rfl, rfl, rfl, fun h => h⟩

theorem advance_unmailed {branch : Branch} {outcome : String} (ho : outcome ≠ "sent") :
    (advance g c node branch outcome now).Keeps (Unmailed keys) := by
  unfold advance
  split
  · exact (move_unmailed ho fun c => .moveTo c _).discard.bind fun _ => .pure _
  · exact (move_unmailed ho .release).discard.bind fun _ => finish_unmailed

theorem after_unmailed {span : Span} : (after now span).Keeps (Unmailed keys) := .need _ _

theorem scheduleDelay_unmailed {wait : Wait} :
    (scheduleDelay c node wait now).Keeps (Unmailed keys) := by
  refine after_unmailed.bind fun fireAt => ?_
  have hmove : (move c.key node .waitingDelay "delay_scheduled" now
      fun c => { c with nextRun := some fireAt }).Keeps (Unmailed keys) :=
    move_unmailed (by decide) fun _ => ⟨rfl, rfl, rfl, rfl, id⟩
  exact hmove.discard.bind fun _ => report_unmailed.bind fun _ => .pure _

theorem reachGoal_unmailed : (reachGoal c node now).Keeps (Unmailed keys) := by
  have hmove : (move c.key node .goalReached "goal_reached" now
      fun c => { c with goalReachedAt := some now }).Keeps (Unmailed keys) :=
    move_unmailed (by decide) fun _ => ⟨rfl, rfl, rfl, rfl, id⟩
  exact hmove.discard.bind fun _ => finish_unmailed

theorem resolve_unmailed {k : Condition} {cause : Cause} :
    (resolve g c node k cause now).Keeps (Unmailed keys) := by
  unfold resolve
  split
  · exact .pure _
  · split
    · exact .pure _
    · next branch _ =>
      have hbranch : branch.name ≠ "sent" := by cases branch <;> decide
      exact (advance_unmailed hbranch).bind fun _ => report_unmailed.bind fun _ => .pure _

theorem enterCondition_unmailed {k : Condition} :
    (enterCondition g c node k now).Keeps (Unmailed keys) := by
  refine after_unmailed.bind fun deadline => ?_
  have hmove : (move c.key node .waitingCondition "condition_entered" now fun c =>
      { c with nextRun := some deadline, window := some ⟨node.id, now, deadline, []⟩ }).Keeps
      (Unmailed keys) := move_unmailed (by decide) fun _ => ⟨rfl, rfl, rfl, rfl, id⟩
  exact hmove.bind fun _ => resolve_unmailed

theorem observed_sameMail {e : Engagement} {d : Cursor} (h : observed e node now c = some d) :
    c.SameMail d := by
  unfold observed at h
  split at h
  · split at h
    · obtain rfl := Option.some.inj h
      exact ⟨rfl, rfl, rfl, rfl, id⟩
    · cases h
  · cases h

theorem observe_unmailed {k : Condition} {e : Engagement} :
    (observe g c node k e now).Keeps (Unmailed keys) := by
  unfold observe
  split
  · exact .pure _
  · intro w
    cases hc : w.cursors.find? c.key with
    | none =>
      rw [on_bind_error (on_cursor_none hc)]
      exact .refl w
    | some stored =>
      have hkey := CursorStore.key_eq_of_find? hc ▸ hc
      rw [on_bind_ok (on_cursor_some hc)]
      cases ho : observed e node now stored with
      | none => exact unmailed_storeCursor hkey (.refl stored)
      | some new =>
        exact (unmailed_storeCursor hkey (observed_sameMail ho)).trans (resolve_unmailed _)

theorem mailFailed_unmailed {policy : RetryPolicy} {reason : String} :
    (mailFailed policy c node reason now).Keeps (Unmailed keys) := by
  unfold mailFailed
  dsimp only
  split
  · exact fail_unmailed
  · refine after_unmailed.bind fun retryAt => ?_
    have hmove : (move c.key node .waitingDelay "send_retry" now
        fun d => { d with retries := c.retries + 1, nextRun := some retryAt }).Keeps
        (Unmailed keys) := move_unmailed (by decide) fun _ => ⟨rfl, rfl, rfl, rfl, id⟩
    exact hmove.discard.bind fun _ => report_unmailed.bind fun _ => .pure _

/-- After a mail that was not sent. -/
theorem settleMail_unmailed {policy : RetryPolicy} {fault : SendFault} :
    (settleMail policy g c node now (.error fault)).Keeps (Unmailed keys) := by
  cases fault with
  | transient reason => exact mailFailed_unmailed
  | permanent reason => exact fail_unmailed

/-! ## Control -/

theorem canceled_sameMail {reason : String} (hr : c.state.terminal = false) :
    c.SameMail (canceled reason now c) := by
  have hline : "canceled: " ++ reason ≠ "sent" := by
    rw [ne_eq, ← String.toList_inj, String.toList_append]
    simp
  exact (Cursor.SameMail.log hline fun h => by rw [h] at hr; cases hr).trans (.release _)

theorem cancel_unmailed {reason : String} : (cancel key reason now).Keeps (Unmailed keys) := by
  intro w
  unfold cancel
  cases hc : w.cursors.find? key with
  | none =>
    rw [on_bind_error (on_cursor_none hc)]
    exact .refl w
  | some c =>
    have hkey := CursorStore.key_eq_of_find? hc ▸ hc
    rw [on_bind_ok (on_cursor_some hc)]
    cases hr : c.state.terminal with
    | true => exact unmailed_storeCursor hkey (.refl c)
    | false =>
      exact (unmailed_storeCursor hkey (canceled_sameMail hr)).trans
        (finish_unmailed.discard.bind (fun _ => .pure _) _)

theorem requireCampaign_unmailed {campaign : Uuid} :
    (requireCampaign campaign).Keeps (Unmailed keys) := by
  intro w
  rw [on_requireCampaign]
  split <;> exact .refl w

theorem setStatus_unmailed {campaign : Uuid} {status : CampaignStatus} :
    (apply (·.setStatus campaign status)).Keeps (Unmailed keys) :=
  .apply fun _ => .of_eq rfl rfl rfl

theorem cancelRunning_unmailed {campaign : Uuid} {reason : String} :
    (cancelRunning campaign reason now).Keeps (Unmailed keys) :=
  .get fun w => Keeps.cancelAll (fun _ => cancel_unmailed) _ w

theorem pause_unmailed {campaign : Uuid} : (pause campaign now).Keeps (Unmailed keys) := by
  refine requireCampaign_unmailed.bind fun _ => .get fun w => ?_
  split
  · exact .refl w
  · exact (setStatus_unmailed.bind fun _ => cancelRunning_unmailed) w

theorem cancelCampaign_unmailed {campaign : Uuid} :
    (cancelCampaign campaign now).Keeps (Unmailed keys) :=
  requireCampaign_unmailed.bind fun _ => setStatus_unmailed.bind fun _ => cancelRunning_unmailed

theorem resume_unmailed {campaign : Uuid} : (resume campaign).Keeps (Unmailed keys) := by
  refine requireCampaign_unmailed.bind fun _ => .get fun w => ?_
  cases w.status campaign with
  | paused => exact setStatus_unmailed w
  | _ => exact .refl w

theorem activate_unmailed {campaign : Uuid} {document : Document} :
    (activate campaign document now).Keeps (Unmailed keys) := by
  refine .get fun w => ?_
  by_cases hs : w.status campaign = .canceled
  · rw [if_pos hs]
    exact .refl w
  · rw [if_neg hs]
    cases w.flows.activate (Uuid.ofNat w.nextId) campaign document now with
    | error v => exact .refl w
    | ok stored => exact .of_eq rfl rfl rfl

/-! ## Events and upkeep -/

theorem receive_unmailed {e : Engagement} : (receive e now).Keeps (Unmailed keys) := by
  refine .get fun w => ?_
  cases w.seen.receive e.key now with
  | none => exact .refl w
  | some seen => exact .of_eq rfl rfl rfl

theorem settle_unmailed {k : String} : (settle k).Keeps (Unmailed keys) := by
  refine .get fun w => ?_
  rcases w.seen.settle k with ⟨seen, _ | time⟩ <;> exact .of_eq rfl rfl rfl

theorem count_unmailed {e : Engagement} (he : e.kind ≠ .sent) (hk : keys e.key) :
    (apply (·.count e none now)).Keeps (Unmailed keys) := .apply fun w => unmailed_count he hk w _ _

theorem ingestHalting_unmailed {e : Engagement} (he : e.kind ≠ .sent) (hk : keys e.key) :
    (ingestHalting e now).Keeps (Unmailed keys) :=
  .ingestHalting receive_unmailed (count_unmailed he hk) (fun _ => cancel_unmailed) settle_unmailed

theorem prune_unmailed {ttlHours : UInt64} : (prune ttlHours now).Keeps (Unmailed keys) := by
  refine Keeps.bind (.need _ _) fun _ => Keeps.bind (.need _ _) fun cutoff => .get fun w => ?_
  refine { (Unmailed.refl w : w.Unmailed keys w) with applied := fun k hk => .inr ?_ }
  change ((w.statistics.applied.keepIf _).find? k).isSome = true at hk
  rw [Table.find?_keepIf] at hk
  obtain ⟨t, ht⟩ := Option.isSome_iff_exists.1 hk
  exact Option.isSome_iff_exists.2 ⟨t, (Option.filter_eq_some_iff.1 ht).1⟩

/-! ## New cursors -/

theorem addLead_unmailed {campaign : Uuid} {lead : Lead} :
    (Engine.addLead campaign lead now).Keeps (Unmailed keys) := by
  refine .get fun w => ?_
  by_cases hs : (w.status campaign).halts = true
  · rw [if_pos hs]
    exact .refl w
  rw [if_neg hs]
  cases w.flows.active? campaign with
  | none => exact .refl w
  | some g =>
    rw [on_bind_ok (on_need_some _ g w)]
    dsimp only
    cases hi : w.cursors.insert (Engine.newCursor (Uuid.ofNat w.nextId) g campaign lead.id now) with
    | error x => exact .refl w
    | ok cursors =>
      obtain ⟨hn, rfl⟩ := CursorStore.insert_eq_ok_iff.1 hi
      refine (unmailed_addNew (w.nextId + 1) (w.leads.insert lead.id lead) hn rfl rfl).trans ?_
      exact (Unmailed.trans (unmailed_journal _ _) (unmailed_journal _ _)).trans
        ((unmailed_countEnrolled _ _).trans (unmailed_report _ _ _ _ _))

end Change

end MailCampaign
