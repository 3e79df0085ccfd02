import MailCampaign.Proofs.Engine.Handover
import MailCampaign.Proofs.Engine.Window
import MailCampaign.Proofs.World.Fired
import MailCampaign.Proofs.World.Stay

/-!
# Attempts at mails

A cursor at a mail counts its failed attempts, and the policy sets how many there may be. The lines of
the present visit tell the same number (`Cursor.failures`).

1. While a cursor is at a mail, the count is that of the lines and within the budget, and nowhere else
   is there a count (`Cursor.Stayed.budgeted`).
2. The answer to an attempt alone says what becomes of the cursor: the `k`-th failure has it wait for
   as long as the policy sets for `k`, or it fails, or it leaves its step (`Change.settleMail_tried`).
3. Every attempt adds a line to the history. So in one visit there are no more attempts than lines.
-/

namespace MailCampaign

variable {policy : RetryPolicy} {g : Graph} {node : Node} {b c d : Cursor} {now : Instant}
  {w v : World} {key : CursorKey} {scope : Scope}

/-- The number of failed attempts in the present visit of a cursor, by its lines. -/
def Cursor.failures (c : Cursor) : Nat := c.visits.present.countP (·.outcome = "send_retry")

/-- The budget of a cursor in a version of a flow. -/
structure Cursor.Budgeted (policy : RetryPolicy) (g : Graph) (c : Cursor) : Prop where
  /-- Failed attempts are counted at mails only. -/
  mails : c.retries ≠ 0 → ∃ n, g.node? c.nodeId = some n ∧ n.Mails
  /-- A cursor that has just come to its step has its full budget. -/
  full : c.state.entering = true → c.retries = 0
  /-- While it is at a mail, the count is that of the present visit and within the budget. -/
  spent : c.state.terminal = false → ∀ n, g.node? c.nodeId = some n → n.Mails →
    c.retries.toNat = c.failures ∧ c.failures ≤ policy.limit.toNat
  /-- The timer is set for the wait after the last failed attempt. -/
  waits : c.state.terminal = false → ∀ s, c.visits.present.getLast? = some s →
    s.outcome = "send_retry" →
    ∃ t, s.time.add? (policy.backoff (.ofNat c.failures)) = some t ∧ c.nextRun = some t
  /-- A visit to a mail has one line more than the budget at most. -/
  past : ∀ v ∈ c.visits.past, ∀ n, g.node? v.leaving.nodeId = some n → n.Mails →
    v.lines.length ≤ policy.limit.toNat + 1
  present : ∀ n, g.node? c.nodeId = some n → n.Mails →
    c.visits.present.length ≤ policy.limit.toNat + 1

/-- What the answer to an attempt at the mail of a step makes of a cursor, with the outcome. -/
inductive Cursor.Tried (policy : RetryPolicy) (g : Graph) (node : Node) (now : Instant) (c : Cursor) :
    Except SendFault String → Except Fault Outcome → Cursor → Prop
  /-- An outage within the budget: it waits for another attempt. -/
  | again {reason : String} {retryAt : Instant} : c.failures + 1 ≤ policy.limit.toNat →
      now.add? (policy.backoff (.ofNat (c.failures + 1))) = some retryAt →
      Tried policy g node now c (.error (.transient reason)) (.ok .parked)
        { c.log node.action.name "send_retry" .waitingDelay now with
          retries := .ofNat (c.failures + 1), nextRun := some retryAt }
  /-- There is no such time. -/
  | outOfRange {reason : String} : c.failures + 1 ≤ policy.limit.toNat →
      now.add? (policy.backoff (.ofNat (c.failures + 1))) = none →
      Tried policy g node now c (.error (.transient reason)) (.error .outOfRange) c
  /-- An outage when the budget is spent: it fails. -/
  | exhausted {reason : String} : c.failures = policy.limit.toNat →
      Tried policy g node now c (.error (.transient reason)) (.ok (.finished .failed))
        { (c.log "cursor" "failed" .failed now).release with
          failure := some ("send retries exhausted after " ++ natText (c.failures + 1) ++
            " attempts: " ++ reason) }
  /-- A mail that is refused for good: it fails at once. -/
  | refused {reason : String} :
      Tried policy g node now c (.error (.permanent reason)) (.ok (.finished .failed))
        { (c.log "cursor" "failed" .failed now).release with failure := some reason }
  /-- A mail that was accepted: it is at the next step, with a full budget. -/
  | moved {messageId : String} {next : Node} {n : Counters} :
      g.next? node.id .next = some next →
      Tried policy g node now c (.ok messageId) (.ok .moved)
        ((({ c with counters := n } : Cursor).log node.action.name "sent" .active now).moveTo next.id)
  /-- A mail that was accepted at the last step: its flow is over. -/
  | completed {messageId : String} {n : Counters} : g.next? node.id .next = none →
      Tried policy g node now c (.ok messageId) (.ok (.finished .completed))
        (({ c with counters := n } : Cursor).log node.action.name "sent" .completed now).release

/-! ## Counts -/

/-- At a mail all lines of a stay tell of failed attempts. -/
theorem Node.Stay.countP_eq {n : Node} {lines : List Step} {retries : UInt32} {due : Option Instant}
    (h : n.Stay policy lines retries due) (hm : n.Mails) :
    lines.countP (·.outcome = "send_retry") = lines.length :=
  List.countP_eq_length.2 fun s hs => decide_eq_true ((h.of_mail hm).1 s hs)

namespace Cursor

/-- The count of a cursor whose visits are stays keeps to the budget. -/
theorem Stayed.budgeted {flows : FlowStore} (h : c.Stayed policy g) (hwf : c.WellFormed flows)
    (hg : flows.find? c.flowId = some g) (hlimit : policy.limit.toNat < 2 ^ 32 - 1) :
    c.Budgeted policy g := by
  obtain ⟨g', node, hat, -, hmails⟩ := hwf.placed
  obtain rfl : g' = g := Option.some.inj (hat.version.symm.trans hg)
  have hlines : ∀ {n : Node} {lines : List Step} {retries : UInt32} {due : Option Instant},
      n.Stay policy lines retries due → n.Mails → lines.length ≤ policy.limit.toNat :=
    fun hstay hm => hstay.toNat_retries hm hlimit ▸ (hstay.of_mail hm).2.2
  refine ⟨fun hne => ⟨node, hat.step, hmails hne⟩, fun he => ?_, fun hr n hn hm => ?_,
    fun hr s hs ho => ?_, fun v hv n hn hm => ?_, fun n hn hm => ?_⟩
  · have hstay := h.stay (CursorState.terminal_of_entering he) hat.step
    rw [(hwf.entering he).1] at hstay
    exact hstay.of_none.2
  · have hstay := h.stay hr hn
    rw [failures, hstay.countP_eq hm]
    exact ⟨hstay.toNat_retries hm hlimit, hlines hstay hm⟩
  · obtain ⟨n, hn, hstay⟩ := h.running hr
    obtain ⟨before, hpresent⟩ := List.getLast?_eq_some_iff.1 hs
    have hsplit := hstay
    rw [hpresent] at hsplit
    obtain ⟨t, ht, -, hdue⟩ := hsplit.again ho
    have hm : n.Mails := by
      generalize c.retries = retries, c.nextRun = due at hsplit
      generalize hl : before ++ [s] = lines at hsplit
      cases hsplit with
      | came => exact absurd hl (by simp)
      | delayed _ _ ho' =>
        rw [(List.append_singleton_inj.1 (hl.trans (List.nil_append _).symm)).2] at ho
        exact absurd (ho.symm.trans ho') (by decide)
      | watched _ _ ho' =>
        rw [(List.append_singleton_inj.1 (hl.trans (List.nil_append _).symm)).2] at ho
        exact absurd (ho.symm.trans ho') (by decide)
      | retried hm => exact hm
    refine ⟨t, ?_, hdue rfl⟩
    rw [failures, hstay.countP_eq hm, hpresent, List.length_append]
    exact ht
  · obtain ⟨n', retries, due, hn', hstay, -⟩ := h.past v hv
    obtain rfl : n' = n := Option.some.inj (hn'.symm.trans hn)
    rw [Visit.lines, List.length_append]
    exact Nat.succ_le_succ (hlines hstay hm)
  · cases hr : c.state.terminal with
    | false => exact Nat.le_succ_of_le (hlines (h.stay hr hn) hm)
    | true =>
      rcases h.ended hr with hnil | ⟨n', stay, retries, due, s, hn', hstay, hpresent, -⟩
      · rw [hnil]
        exact Nat.zero_le _
      · obtain rfl : n' = n := Option.some.inj (hn'.symm.trans hn)
        rw [hpresent, List.length_append]
        exact Nat.succ_le_succ (hlines hstay hm)

end Cursor

/-! ## Answers -/

namespace Change

/-- The counters of a cursor do not matter to what an answer makes of it. -/
theorem settleMail_counters (c : Cursor) (n : Counters) (answer : Except SendFault String) :
    settleMail policy g { c with counters := n } node now answer =
      settleMail policy g c node now answer := by
  rcases answer with (reason | reason) | messageId <;> rfl

/-- Failing ends a stored cursor that runs. -/
theorem fail_stored (reason : String) (hc : w.cursors.find? c.key = some c)
    (hr : c.state.terminal = false) (now : Instant) :
    ((fail c.key reason now).on w).1 = .ok (.finished .failed) ∧
      ((fail c.key reason now).on w).2.cursors.find? c.key =
        some { (c.log "cursor" "failed" .failed now).release with failure := some reason } := by
  have hpermit : permit c .failed { (c.log "cursor" "failed" .failed now).release with
      failure := some reason } = .ok _ := if_pos (mayBecome_of_running hr (.inr rfl))
  unfold fail
  rw [on_bind_ok (revise_ok hc hpermit), on_finish]
  refine ⟨rfl, ?_⟩
  rw [(booked_finish _ _ _ _ _ _).cursors]
  exact World.find?_storeCursor_self hc rfl

/-- A mail that was accepted. -/
theorem mailSent_tried (hc : w.cursors.find? c.key = some c) (hn : c.nodeId = node.id)
    (hs : c.Sendable now) (messageId : String) :
    ∃ d, ((mailSent g c node messageId now).on w).2.cursors.find? c.key = some d ∧
      c.Tried policy g node now (.ok messageId) ((mailSent g c node messageId now).on w).1 d := by
  obtain ⟨n, hcounted⟩ := World.count_own hc (sentEvent c messageId now) now
  let books := (w.count (sentEvent c messageId now) (some c.key) now).report c (.mailSent messageId)
    node.id now
  have hbooks : books.cursors.find? c.key = some { c with counters := n } := hcounted
  have hon : (mailSent g c node messageId now).on w = (advance g c node .next "sent" now).on books :=
    rfl
  rw [hon]
  unfold advance
  cases hedge : g.next? node.id .next with
  | some next =>
    have hactive := mayBecome_of_running hs.running (.inl rfl)
    dsimp only
    rw [on_bind_ok (discard_ok (move_ok (·.moveTo next.id) hbooks hn hactive))]
    exact ⟨_, World.find?_storeCursor_self hbooks rfl, .moved hedge⟩
  | none =>
    have hmay := mayBecome_waitingDelay hs
    have hdone : c.state.mayBecome .completed = true := by
      cases hstate : c.state <;> rw [hstate] at hmay <;> first | rfl | cases hmay
    dsimp only
    rw [on_bind_ok (discard_ok (move_ok Cursor.release hbooks hn hdone)), on_finish]
    refine ⟨_, ?_, .completed (n := n) hedge⟩
    rw [(booked_finish _ _ _ _ _ _).cursors]
    exact World.find?_storeCursor_self hbooks rfl

section Counted

variable (hcount : c.retries.toNat = c.failures) (hle : c.failures ≤ policy.limit.toNat)
  (hlimit : policy.limit.toNat < 2 ^ 32 - 1)

include hcount hle hlimit

/-- An outage. -/
theorem mailFailed_tried (hc : w.cursors.find? c.key = some c) (hn : c.nodeId = node.id)
    (hs : c.Sendable now) (reason : String) :
    ∃ d, ((mailFailed policy c node reason now).on w).2.cursors.find? c.key = some d ∧
      c.Tried policy g node now (.error (.transient reason))
        ((mailFailed policy c node reason now).on w).1 d := by
  have hnext : c.retries + 1 = .ofNat (c.failures + 1) := by
    rw [← hcount, UInt32.ofNat_add, UInt32.ofNat_toNat]
    rfl
  have hnumber : (c.retries + 1).toNat = c.failures + 1 := by
    rw [hnext, UInt32.toNat_ofNat']
    exact Nat.mod_eq_of_lt (by show _ + 1 < 2 ^ 32; omega)
  unfold mailFailed
  dsimp only
  by_cases hspent : c.failures = policy.limit.toNat
  · have hover : c.retries + 1 > policy.limit := UInt32.lt_iff_toNat_lt.2 (by omega)
    rw [if_pos hover, hnumber]
    obtain ⟨houtcome, hfailed⟩ := fail_stored ("send retries exhausted after " ++
      natText (c.failures + 1) ++ " attempts: " ++ reason) hc hs.running now
    rw [houtcome]
    exact ⟨_, hfailed, .exhausted hspent⟩
  · have hwithin : ¬ c.retries + 1 > policy.limit := by
      rw [gt_iff_lt, UInt32.lt_iff_toNat_lt]
      omega
    rw [if_neg hwithin, hnext, after]
    cases hadd : now.add? (policy.backoff (.ofNat (c.failures + 1))) with
    | none =>
      rw [on_bind_error (on_need_none _ w)]
      exact ⟨c, hc, .outOfRange (by omega) hadd⟩
    | some retryAt =>
      rw [on_bind_ok (on_need_some _ retryAt w),
        on_bind_ok (discard_ok (move_ok _ hc hn (mayBecome_waitingDelay hs)))]
      exact ⟨_, World.find?_storeCursor_self hc rfl, .again (by omega) hadd⟩

/-- **What an attempt comes to.** The answer alone says what becomes of a cursor whose mail may be
sent, if its count is that of the present visit. -/
theorem settleMail_tried (hc : w.cursors.find? c.key = some c) (hn : c.nodeId = node.id)
    (hs : c.Sendable now) (answer : Except SendFault String) :
    ∃ d, ((settleMail policy g c node now answer).on w).2.cursors.find? c.key = some d ∧
      c.Tried policy g node now answer ((settleMail policy g c node now answer).on w).1 d := by
  rcases answer with (reason | reason) | messageId
  · exact mailFailed_tried hcount hle hlimit hc hn hs reason
  · obtain ⟨houtcome, hfailed⟩ := fail_stored reason hc hs.running now
    refine ⟨_, hfailed, ?_⟩
    show c.Tried policy g node now _ ((fail c.key reason now).on w).1 _
    rw [houtcome]
    exact .refused
  · exact mailSent_tried hc hn hs messageId

end Counted

end Change

/-! ## Steps -/

namespace Engine

variable {σ : Type} {svc : Services σ} {s : Session σ} {trigger : Trigger} {mail : Mail} {lead : Lead}

/-- At a mail that is not due, running the step does nothing. -/
theorem execute_undue (hc : s.world.cursors.find? c.key = some c) (hr : c.state.terminal = false)
    (hn : g.node? c.nodeId = some node) (ha : node.action = .email mail)
    (hdue : c.mailDue? node trigger now = none) :
    (execute svc g c.key trigger now).on s = (.ok .ignored, s) := by
  have hhandle : Change.handle g c node trigger now = pure .ignored := by
    unfold Change.handle
    rw [ha]
  rw [on_execute hc hr hn, on_ignoreClash, perform_eq, hdue, hhandle]
  rfl

/-- Running the step of a cursor whose mail is due attempts it once. Unless the cursor was halted
meanwhile, the answer says what becomes of it. -/
theorem execute_tried (hc : s.world.cursors.find? c.key = some c) (hat : c.At s.world.flows g node)
    (hdue : c.mailDue? node trigger now = some mail)
    (hlead : s.world.leads.find? c.leadId = some lead) (hcount : c.retries.toNat = c.failures)
    (hle : c.failures ≤ svc.retry.limit.toNat) (hlimit : svc.retry.limit.toNat < 2 ^ 32 - 1) :
    ∃ answer t b, (attempt svc c.key mail lead now).on s = (.ok answer, t) ∧
      t.world.cursors.find? c.key = some b ∧
      (b.state.terminal = false → b = { c with counters := b.counters } ∧
        ∃ d, ((execute svc g c.key trigger now).on s).2.world.cursors.find? c.key = some d ∧
          b.Tried svc.retry g node now answer ((execute svc g c.key trigger now).on s).1 d) := by
  have hsend := (Cursor.of_mailDue? hdue).2
  obtain ⟨answer, t, hon, hcourse⟩ := attempt_coursed svc c.key mail lead now s
  obtain ⟨b, hb, hidle⟩ := hcourse.idled id hc
  refine ⟨answer, t, b, hon, hb, fun hr => ?_⟩
  obtain ⟨n, rfl⟩ : ∃ n, b = { c with counters := n } := by
    rcases hidle with ht | heq
    · rw [hr] at ht
      cases ht
    · exact ⟨_, heq⟩
  refine ⟨rfl, ?_⟩
  obtain ⟨d, hd, htried⟩ := Change.settleMail_tried (g := g) (c := { c with counters := n }) hcount
    hle hlimit hb hat.nodeId hsend answer
  rw [Change.settleMail_counters] at hd htried
  have hperform : (perform svc g c node trigger now).on s =
      (liftM (Change.settleMail svc.retry g c node now answer) : Engine σ Outcome).on t := by
    rw [perform_eq, hdue]
    unfold sendMail
    rw [on_bind_ok (on_world s), hlead]
    dsimp only
    rw [on_bind_ok hon]
  rw [on_execute hc hsend.running hat.step, on_ignoreClash, hperform, on_lift]
  rcases hsettle : (Change.settleMail svc.retry g c node now answer).on t.world with ⟨r, v⟩
  rw [hsettle] at hd htried
  cases htried with
  | again hwithin hadd => exact ⟨_, hd, .again hwithin hadd⟩
  | outOfRange hwithin hadd => exact ⟨_, hd, .outOfRange hwithin hadd⟩
  | exhausted hspent => exact ⟨_, hd, .exhausted hspent⟩
  | refused => exact ⟨_, hd, .refused⟩
  | moved hedge => exact ⟨_, hd, .moved hedge⟩
  | completed hedge => exact ⟨_, hd, .completed (n := _) hedge⟩

/-- Unless its campaign is halted, a dispatch runs the step of a cursor. -/
theorem dispatchOnce_eq_execute (hc : s.world.cursors.find? c.key = some c)
    (hg : s.world.flows.find? c.flowId = some g)
    (hst : (s.world.status c.campaignId).halts = false) :
    (dispatchOnce svc c.key trigger now).on s = (execute svc g c.key trigger now).on s := by
  have hneed : (liftM (Change.need (.missing (.flowVersion c.key.flowId))
      (s.world.flows.find? c.key.flowId)) : Engine σ Graph).on s = (.ok g, s) := by
    rw [on_lift, show s.world.flows.find? c.key.flowId = some g from hg, Change.on_need_some]
  unfold dispatchOnce
  rw [on_bind_ok (on_cursor_some hc), on_bind_ok (on_world s)]
  cases hr : c.state.terminal with
  | true =>
    unfold execute
    rw [if_pos rfl, on_bind_ok (on_cursor_some hc), if_pos hr]
  | false =>
    rw [if_neg Bool.false_ne_true, hst, if_neg Bool.false_ne_true, on_bind_ok hneed]

end Engine

/-! ## Lines -/

/-- A cursor that runs and takes no turn is at most counted on, or a line says that it was
canceled. -/
theorem World.Course.further_or_counted (h : w.Course policy scope v) (hk : ¬ scope.turns key)
    (hc : w.cursors.find? key = some c) :
    ∃ d, v.cursors.find? key = some d ∧ (c.Further d ∨ d = { c with counters := d.counters }) := by
  refine h.preserves ⟨c, hc, .inr rfl⟩ ?_
  rintro u v h ⟨d, hd, hkept⟩
  have hch := h.changes key
  rw [hd] at hch
  generalize v.cursors.find? key = o at hch
  cases hch with
  | none => exact ⟨d, rfl, hkept⟩
  | turn ho => exact absurd ho hk
  | canceled =>
    refine ⟨_, rfl, .inl ?_⟩
    rcases hkept with hfurther | heq
    · exact hfurther.trans_prefix (List.prefix_append _ _)
    · rw [heq]
      exact .line rfl
  | counted _ e =>
    refine ⟨_, rfl, ?_⟩
    rcases hkept with hfurther | heq
    · rw [Cursor.counted_eq]
      exact .inl (hfurther.trans_prefix List.prefix_rfl)
    · exact .inr (by rw [Cursor.counted_eq, heq])

/-- The visits of a history that goes on: there are no fewer, and if there are no more then the present
one goes on. -/
theorem Visits.of_append (before more : List Step) :
    (of before).past.length ≤ (of (before ++ more)).past.length ∧
      ((of (before ++ more)).past.length = (of before).past.length →
        (of (before ++ more)).present = (of before).present ++ more) := by
  induction more using List.reverseRecOn with
  | nil =>
    rw [List.append_nil, List.append_nil]
    exact ⟨Nat.le_refl _, fun _ => rfl⟩
  | append_singleton more s ih =>
    rw [← List.append_assoc, of_concat]
    by_cases hs : s.Departs
    · rw [add_departs hs, List.length_append, List.length_singleton]
      exact ⟨Nat.le_succ_of_le ih.1, fun heq => by omega⟩
    · rw [add_stays hs]
      exact ⟨ih.1, fun heq => by rw [ih.2 heq, List.append_assoc]⟩

/-- A cursor that is further on in the same visit has more lines in it. -/
theorem Cursor.Further.present_lt (h : c.Further d) (hvisit : d.visit = c.visit) :
    c.visits.present.length < d.visits.present.length := by
  obtain ⟨s, rest, hd⟩ := h
  have happend := (Visits.of_append c.history (s :: rest)).2
  unfold Cursor.visit Cursor.visits at hvisit
  unfold Cursor.visits
  rw [hd] at hvisit ⊢
  rw [happend hvisit, List.length_append, List.length_cons]
  omega

/-- The closing of a mail adds a line to the history of its cursor, unless a time is out of range. -/
theorem Change.closing_further {h : Handover} {during : Scope} {u : World}
    {result : Except SendFault String} (hd : h.Due key now w) (hn : ¬ during.turns key)
    (hw : w.Course policy during u)
    (hrange : ((closing policy h now result).on u).1 ≠ .error .outOfRange) :
    ∃ d, ((closing policy h now result).on u).2.cursors.find? key = some d ∧ h.cursor.Further d := by
  obtain rfl := hd.key
  obtain ⟨b, hb, hfurther | heq⟩ := hw.further_or_counted hn hd.stored
  · obtain ⟨d, hd', -⟩ := (closing_course hd hn hw result).stored hb
    exact ⟨d, hd', hfurther.trans_prefix ((closing_course hd hn hw result).history hb hd')⟩
  · generalize b.counters = n at heq
    subst heq
    have hfires : (settleMail policy h.graph { h.cursor with counters := n } h.node now result).Fires
        { h.cursor with counters := n } now False u :=
      settleMail_fires hb hd.here.nodeId hd.sendable False.elim
    rw [settleMail_counters, Fires] at hfires
    unfold closing hushed at hrange ⊢
    rw [on_tryCatch] at hrange ⊢
    rcases hsettle : (settleMail policy h.graph h.cursor h.node now result).on u with ⟨r, v⟩
    rw [hsettle] at hfires hrange
    cases hfires with
    | went _ hd' hfurther => exact ⟨_, hd', hfurther.of_prefix List.prefix_rfl⟩
    | outOfRange => exact absurd rfl hrange

end MailCampaign
