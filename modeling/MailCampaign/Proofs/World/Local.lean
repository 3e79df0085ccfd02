import MailCampaign.Proofs.Engine.Halves
import MailCampaign.Proofs.World.Act

/-!
# Changes that keep to a realm

The step of a cursor reads and writes little of the world: its cursor, the keys of its own mails,
and the flows, campaigns and leads, which it does not write. That is its realm.

1. Acts within realms that are apart are apart (`Act.Within.apart`), and an act within one realm is
   not seen from a realm that is apart from it (`World.Looks.of_apart`).
2. A change that keeps to a realm comes to the same and does the same acts in all worlds that look
   the same from the realm (`Change.Local`), and so does one such change after another
   (`Local.bind`).
3. The moves of a cursor keep to its realm.
-/

namespace MailCampaign

/-- What the step of a cursor may touch: the cursor, keys of counted events and mails to leads. -/
structure Realm where
  key : CursorKey
  counts : String → Prop
  leads : String → Prop

/-- Realms that have nothing in common. -/
structure Realm.Apart (R S : Realm) : Prop where
  key : R.key ≠ S.key
  counts : ∀ key, R.counts key → ¬ S.counts key
  leads : ∀ leadId, R.leads leadId → ¬ S.leads leadId

/-- An act touches nothing outside a realm but the totals. -/
def Act.Within (R : Realm) : Act → Prop
  | .stored _ new => new.key = R.key
  | .mailed _ messageId _ => R.counts (sentKey messageId)
  | .sent mail => R.leads mail.lead.id
  | _ => True

namespace Act.Within

variable {R S : Realm} {a b : Act}

theorem cursor?_eq_none (ha : a.Within R) {key : CursorKey} (hk : key ≠ R.key) :
    a.cursor? key = none := by
  cases a with
  | stored old new =>
    have hnew : new.key = R.key := ha
    exact if_neg fun h => hk (h.trans hnew)
  | _ => rfl

theorem applied?_eq_none (ha : a.Within R) {key : String} (hk : ¬ R.counts key) :
    a.applied? key = none := by
  cases a with
  | mailed c messageId now =>
    have hcounts : R.counts (sentKey messageId) := ha
    exact if_neg fun h : key = sentKey messageId => hk (h ▸ hcounts)
  | _ => rfl

theorem mailsTo_eq_nil (ha : a.Within R) {leadId : String} (hl : ¬ R.leads leadId) :
    a.mailsTo leadId = [] := by
  cases a with
  | sent mail =>
    have hlead : R.leads mail.lead.id := ha
    exact if_neg fun h : mail.lead.id = leadId => hl (h ▸ hlead)
  | _ => rfl

/-- Acts within realms that are apart are apart. -/
theorem apart (ha : a.Within R) (hb : b.Within S) (h : R.Apart S) : a.Apart b where
  cursors := fun key => by
    by_cases hk : key = R.key
    · exact .inr (hb.cursor?_eq_none (hk ▸ h.key))
    · exact .inl (ha.cursor?_eq_none hk)
  applied := fun key => by
    by_cases hk : R.counts key
    · exact .inr (hb.applied?_eq_none (h.counts key hk))
    · exact .inl (ha.applied?_eq_none hk)
  mails := fun leadId => by
    by_cases hl : R.leads leadId
    · exact .inr (hb.mailsTo_eq_nil (h.leads leadId hl))
    · exact .inl (ha.mailsTo_eq_nil hl)

end Act.Within

namespace World

variable {R S : Realm} {w v u : World} {acts : List Act}

/-- Worlds that look the same from a realm. -/
structure Looks (R : Realm) (w v : World) : Prop where
  flows : v.flows = w.flows
  campaigns : v.campaigns = w.campaigns
  leads : v.leads = w.leads
  cursor : v.cursors.find? R.key = w.cursors.find? R.key
  applied : ∀ key, R.counts key →
    v.statistics.applied.find? key = w.statistics.applied.find? key

theorem Looks.refl (R : Realm) (w : World) : w.Looks R w :=
  ⟨rfl, rfl, rfl, rfl, fun _ _ => rfl⟩

theorem Looks.trans (h : w.Looks R v) (h' : v.Looks R u) : w.Looks R u where
  flows := h'.flows.trans h.flows
  campaigns := h'.campaigns.trans h.campaigns
  leads := h'.leads.trans h.leads
  cursor := h'.cursor.trans h.cursor
  applied := fun key hk => (h'.applied key hk).trans (h.applied key hk)

theorem Looks.status (h : w.Looks R v) (campaign : Uuid) :
    v.status campaign = w.status campaign := by
  unfold World.status
  rw [h.campaigns]

/-- Worlds that look the same do so after an act. -/
theorem Looks.on (h : w.Looks R v) (a : Act) : (a.on w).Looks R (a.on v) := by
  have hw := a.seen_on w
  have hv := a.seen_on v
  refine ⟨by rw [hv.flows, hw.flows, h.flows], by rw [hv.campaigns, hw.campaigns, h.campaigns],
    by rw [hv.leads, hw.leads, h.leads], ?_, fun key hk => ?_⟩
  · rw [hv.cursors, hw.cursors, h.cursor]
  · rw [hv.applied, hw.applied, h.applied key hk]

theorem Looks.after (h : w.Looks R v) (acts : List Act) :
    (w.after acts).Looks R (v.after acts) := by
  induction acts generalizing w v with
  | nil => exact h
  | cons a rest ih => exact ih (h.on a)

/-- What is done within a realm is not seen from a realm that is apart from it. -/
theorem Looks.of_apart (hin : ∀ a ∈ acts, a.Within S) (h : R.Apart S) (w : World) :
    w.Looks R (w.after acts) := by
  induction acts generalizing w with
  | nil => exact .refl R w
  | cons a rest ih =>
    have hw := a.seen_on w
    have ha := hin a List.mem_cons_self
    have hstep : w.Looks R (a.on w) := by
      refine ⟨hw.flows, hw.campaigns, hw.leads, ?_, fun key hk => ?_⟩
      · rw [hw.cursors, ha.cursor?_eq_none h.key, Option.none_or]
      · rw [hw.applied, ha.applied?_eq_none (h.counts key hk), Option.or_none]
    exact hstep.trans (ih (fun b hb => hin b (List.mem_cons_of_mem a hb)) (a.on w))

/-- Acts leave the leads alone. -/
theorem leads_after (w : World) (acts : List Act) : (w.after acts).leads = w.leads := by
  induction acts generalizing w with
  | nil => rfl
  | cons a rest ih => exact (ih (a.on w)).trans (a.seen_on w).leads

end World

namespace Change

variable {α β : Type} {R : Realm}

/-- The cursor that is read has the key. -/
theorem cursor_key {key : CursorKey} {w v : World} {c : Cursor}
    (h : (cursor key).on w = (.ok c, v)) : c.key = key := by
  cases hc : w.cursors.find? key with
  | none =>
    rw [on_cursor_none hc] at h
    cases h
  | some d =>
    rw [on_cursor_some hc] at h
    cases h
    exact CursorStore.key_eq_of_find? hc

/-- A change that comes to the same and does the same acts in all worlds that look the same from a
realm, and keeps its acts within the realm. -/
def Local (R : Realm) (c : Change α) : Prop :=
  ∀ w : World, ∃ result acts, (∀ a ∈ acts, a.Within R) ∧
    ∀ v, w.Looks R v → c.on v = (result, v.after acts)

namespace Local

theorem pure (a : α) : (pure a : Change α).Local R :=
  fun _ => ⟨.ok a, [], List.forall_mem_nil _, fun _ _ => rfl⟩

theorem throw (x : Fault) : (throw x : Change α).Local R :=
  fun _ => ⟨.error x, [], List.forall_mem_nil _, fun _ _ => rfl⟩

theorem need (x : Fault) (o : Option α) : (need x o).Local R := by
  cases o with
  | none => exact throw x
  | some a => exact pure a

/-- A change that does the same acts in all worlds. -/
theorem acts {f : World → World} (acts : List Act) (hin : ∀ a ∈ acts, a.Within R)
    (hf : ∀ w : World, f w = w.after acts) : (apply f).Local R :=
  fun _ => ⟨.ok ⟨⟩, acts, hin, fun v _ => by rw [on_apply, hf]⟩

/-- A change, and what follows from a result that it may come to. -/
theorem bind_of {c : Change α} {f : α → Change β} (hc : c.Local R)
    (hf : ∀ a w v, c.on w = (.ok a, v) → (f a).Local R) : (c >>= f).Local R := by
  intro w
  obtain ⟨result, acts, hin, hon⟩ := hc w
  have hself := hon w (.refl R w)
  cases result with
  | error x => exact ⟨.error x, acts, hin, fun v hv => on_bind_error (hon v hv)⟩
  | ok a =>
    obtain ⟨result, acts', hin', hon'⟩ := hf a w _ hself (w.after acts)
    refine ⟨result, acts ++ acts', fun b hb => ?_, fun v hv => ?_⟩
    · exact (List.mem_append.1 hb).elim (hin b) (hin' b)
    · rw [on_bind_ok (hon v hv), hon' _ (hv.after acts), World.after_append]

theorem bind {c : Change α} {f : α → Change β} (hc : c.Local R) (hf : ∀ a, (f a).Local R) :
    (c >>= f).Local R := hc.bind_of fun a _ _ _ => hf a

theorem discard {c : Change α} (hc : c.Local R) : (discard c).Local R := hc.bind fun _ => pure _

/-- The cursor of the realm is read. -/
theorem cursor {key : CursorKey} (hk : key = R.key) : (Change.cursor key).Local R := by
  intro w
  obtain ⟨result, acts, hin, hon⟩ :=
    need (R := R) (.missing (.cursor key)) (w.cursors.find? key) w
  refine ⟨result, acts, hin, fun v hv => ?_⟩
  rw [on_cursor, hk, hv.cursor, ← hk]
  exact hon v hv

/-- What is done with the cursor of the realm. -/
theorem cursor_bind {key : CursorKey} (hk : key = R.key) {f : Cursor → Change β}
    (hf : ∀ c : Cursor, c.key = R.key → (f c).Local R) : (Change.cursor key >>= f).Local R :=
  (cursor hk).bind_of fun c _ _ h => hf c ((cursor_key h).trans hk)

end Local

/-! ## Moves -/

variable {key : CursorKey} {node : Node} {c : Cursor} {g : Graph} {now : Instant}

theorem report_local {milestone : Milestone} {nodeId : String} :
    (apply (·.report c milestone nodeId now)).Local R :=
  .acts [.told (c.activity milestone nodeId now)] (by simp [Act.Within]) fun _ => rfl

theorem storeCursor_local {old new : Cursor} (hk : new.key = R.key) :
    (apply (·.storeCursor old new)).Local R :=
  .acts [.stored old new] (by simpa [Act.Within] using hk) fun _ => rfl

theorem revise_local (hk : key = R.key) {f : Cursor → Except Fault Cursor}
    (hf : ∀ c new, f c = .ok new → new.key = c.key) : (revise key f).Local R := by
  refine .cursor_bind hk fun c hc => ?_
  cases hr : f c with
  | ok new => exact (storeCursor_local ((hf c new hr).trans hc)).bind fun _ => .pure _
  | error x => exact (storeCursor_local hc).bind fun _ => .throw x

/-- A revised cursor keeps its key. -/
theorem revise_key {f : Cursor → Except Fault Cursor}
    (hf : ∀ c new, f c = .ok new → new.key = c.key) {w v : World}
    (h : (revise key f).on w = (.ok c, v)) : c.key = key := by
  unfold revise at h
  cases hc : w.cursors.find? key with
  | none =>
    rw [on_bind_error (on_cursor_none hc)] at h
    cases h
  | some d =>
    rw [on_bind_ok (on_cursor_some hc)] at h
    have hkey := CursorStore.key_eq_of_find? hc
    cases hr : f d with
    | ok new =>
      rw [hr] at h
      cases h
      exact (hf d c hr).trans hkey
    | error x =>
      rw [hr] at h
      cases h

/-- A move is a revision that keeps the key. -/
theorem key_of_moved {state : CursorState} {outcome : String} {f : Cursor → Cursor}
    (hf : ∀ c : Cursor, (f c).key = c.key) (c new : Cursor)
    (h : (if c.nodeId != node.id then .error (.clash (.moved key node.id))
      else permit c state (f (c.log node.action.name outcome state now))) = .ok new) :
    new.key = c.key := by
  split at h
  · cases h
  · unfold permit at h
    split at h
    · cases h
      exact hf _
    · cases h

theorem move_local (hk : key = R.key) {state : CursorState} {outcome : String} (f : Cursor → Cursor)
    (hf : ∀ c : Cursor, (f c).key = c.key) : (move key node state outcome now f).Local R :=
  revise_local hk (key_of_moved hf)

theorem finish_local {nodeId : String} {state : CursorState} {milestone : Milestone} :
    (finish c nodeId state milestone now).Local R :=
  Local.bind (.acts [.ended c.campaignId state, .told (c.activity milestone nodeId now)]
    (by simp [Act.Within]) fun _ => rfl) fun _ => .pure _

theorem fail_local (hk : key = R.key) {reason : String} : (fail key reason now).Local R := by
  unfold fail
  refine Local.bind (revise_local hk fun c new h => ?_) fun _ => finish_local
  unfold permit at h
  split at h
  · cases h
    rfl
  · cases h

theorem cancel_local (hk : key = R.key) {reason : String} : (cancel key reason now).Local R := by
  unfold cancel
  refine .cursor_bind hk fun c hc => ?_
  split
  · exact (storeCursor_local hc).bind fun _ => .pure _
  · have hcanceled : (canceled reason now c).key = R.key := hc
    exact (storeCursor_local hcanceled).bind fun _ => finish_local.discard.bind fun _ => .pure _

theorem advance_local (hk : c.key = R.key) {branch : Branch} {outcome : String} :
    (advance g c node branch outcome now).Local R := by
  unfold advance
  split
  · next next _ =>
    exact (move_local hk (·.moveTo next.id) fun _ => rfl).discard.bind fun _ => .pure _
  · exact (move_local hk Cursor.release fun _ => rfl).discard.bind fun _ => finish_local

theorem after_local {d : Span} : (after now d).Local R := .need _ _

theorem scheduleDelay_local (hk : c.key = R.key) {wait : Wait} :
    (scheduleDelay c node wait now).Local R :=
  after_local.bind fun fireAt =>
    (move_local hk ({ · with nextRun := some fireAt }) fun _ => rfl).discard.bind fun _ =>
      report_local.bind fun _ => .pure _

theorem reachGoal_local (hk : c.key = R.key) : (reachGoal c node now).Local R :=
  (move_local hk ({ · with goalReachedAt := some now }) fun _ => rfl).discard.bind fun _ =>
    finish_local

theorem resolve_local (hk : c.key = R.key) {k : Condition} {cause : Cause} :
    (resolve g c node k cause now).Local R := by
  unfold resolve
  split
  · exact .pure _
  · split
    · exact .pure _
    · exact (advance_local hk).bind fun _ => report_local.bind fun _ => .pure _

theorem enterCondition_local (hk : c.key = R.key) {k : Condition} :
    (enterCondition g c node k now).Local R := by
  refine after_local.bind fun deadline => ?_
  let opened (d : Cursor) : Cursor :=
    { d with nextRun := some deadline, window := some ⟨node.id, now, deadline, []⟩ }
  have hopened : ∀ d, (opened d).key = d.key := fun _ => rfl
  refine (move_local hk opened hopened).bind_of fun d w v h => resolve_local ?_
  exact (revise_key (key_of_moved hopened) h).trans hk

theorem observed_key {e : Engagement} {d : Cursor} (h : observed e node now c = some d) :
    d.key = c.key := by
  unfold observed at h
  split at h
  · split at h
    · cases h
      rfl
    · cases h
  · cases h

theorem observe_local (hk : c.key = R.key) {k : Condition} {e : Engagement} :
    (observe g c node k e now).Local R := by
  unfold observe
  split
  · exact .pure _
  · refine .cursor_bind hk fun stored hstored => ?_
    cases hd : observed e node now stored with
    | none => exact (storeCursor_local hstored).bind fun _ => .pure _
    | some new =>
      have hnew := (observed_key hd).trans hstored
      exact (storeCursor_local hnew).bind fun _ => resolve_local hnew

/-! ## Mails -/

/-- A mail that was not counted before is counted in the totals and then on its cursor. -/
theorem count_sent_first {v : World} {messageId : String}
    (h : v.statistics.applied.find? (sentKey messageId) = none) :
    v.count (sentEvent c messageId now) (some c.key) now = World.countOnCursor
      (sentEvent c messageId now) ((Act.mailed c messageId now).on v) c.key := by
  have hmailed : (Act.mailed c messageId now).on v =
      (v.countTotals (sentEvent c messageId now) now).getD v := rfl
  rw [hmailed, World.count]
  cases hu : v.countTotals (sentEvent c messageId now) now with
  | some u => rfl
  | none =>
    obtain ⟨t, ht⟩ := Statistics.count_eq_none_iff.1 (Option.map_eq_none_iff.1 hu)
    cases h.symm.trans ht

/-- A mail that was counted before is not counted again. -/
theorem count_sent_again {v : World} {messageId : String} {t : Instant}
    (h : v.statistics.applied.find? (sentKey messageId) = some t) :
    v.count (sentEvent c messageId now) (some c.key) now = v := by
  rw [World.count, Act.countTotals_again v h]

theorem countSent_local (hk : c.key = R.key) {messageId : String}
    (hid : R.counts (sentKey messageId)) :
    (apply (·.count (sentEvent c messageId now) (some c.key) now)).Local R := by
  intro w
  let e := sentEvent c messageId now
  have hfind : ∀ v, w.Looks R v →
      ((Act.mailed c messageId now).on v).cursors.find? c.key = w.cursors.find? c.key := by
    intro v hv
    rw [(Act.seen_on _ v).cursors, hk]
    exact hv.cursor
  cases happ : w.statistics.applied.find? (sentKey messageId) with
  | some t =>
    refine ⟨.ok ⟨⟩, [], List.forall_mem_nil _, fun v hv => ?_⟩
    rw [on_apply, count_sent_again ((hv.applied _ hid).trans happ)]
    rfl
  | none =>
    -- The cursor is stored anew only if it is there.
    cases hd : w.cursors.find? c.key with
    | none =>
      refine ⟨.ok ⟨⟩, [.mailed c messageId now], by simpa [Act.Within] using hid, fun v hv => ?_⟩
      rw [on_apply, count_sent_first ((hv.applied _ hid).trans happ), World.countOnCursor,
        (hfind v hv).trans hd]
      rfl
    | some d =>
      have hkey : (World.counted e d).key = R.key :=
        ((d.sameLead_counted e).key.trans (CursorStore.key_eq_of_find? hd)).trans hk
      refine ⟨.ok ⟨⟩, [.mailed c messageId now, .stored d (World.counted e d)],
        by simpa [Act.Within] using ⟨hid, hkey⟩, fun v hv => ?_⟩
      rw [on_apply, count_sent_first ((hv.applied _ hid).trans happ), World.countOnCursor,
        (hfind v hv).trans hd]
      rfl

theorem mailSent_local (hk : c.key = R.key) {messageId : String}
    (hid : R.counts (sentKey messageId)) : (mailSent g c node messageId now).Local R := by
  have hbooks : (do
      apply (·.count (sentEvent c messageId now) (some c.key) now)
      apply (·.report c (.mailSent messageId) node.id now) : Change Unit).Local R :=
    (countSent_local hk hid).bind fun _ => report_local
  exact hbooks.bind fun _ => advance_local hk

theorem mailFailed_local (hk : c.key = R.key) {retry : RetryPolicy} {reason : String} :
    (mailFailed retry c node reason now).Local R := by
  unfold mailFailed
  dsimp only
  split
  · exact fail_local hk
  · refine after_local.bind fun retryAt => ?_
    exact (move_local hk ({ · with retries := c.retries + 1, nextRun := some retryAt })
      fun _ => rfl).discard.bind fun _ => report_local.bind fun _ => .pure _

/-- The answer to a mail is settled within the realm, if the id is one for its mails. -/
theorem settleMail_local (hk : c.key = R.key) {retry : RetryPolicy}
    {result : Except SendFault String} (hid : ∀ id, result = .ok id → R.counts (sentKey id)) :
    (settleMail retry g c node now result).Local R := by
  rcases result with (reason | reason) | messageId
  · exact mailFailed_local hk
  · exact fail_local hk
  · exact mailSent_local hk (hid messageId rfl)

/-- A step without mail keeps to the realm of its cursor. -/
theorem handle_local (hk : c.key = R.key) {trigger : Trigger} :
    (handle g c node trigger now).Local R := by
  unfold handle
  split
  · split
    · exact scheduleDelay_local hk
    · exact .pure _
  · split
    · exact advance_local hk
    · exact .pure _
  · split
    · exact enterCondition_local hk
    · exact .pure _
  · split
    · exact resolve_local hk
    · exact .pure _
  · split
    · exact observe_local hk
    · exact .pure _
  · split
    · exact reachGoal_local hk
    · exact .pure _
  · exact .pure _

end Change

end MailCampaign
