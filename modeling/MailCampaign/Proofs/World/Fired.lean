import MailCampaign.Proofs.Flow.Timeouts
import MailCampaign.Proofs.World.Engaged
import MailCampaign.Proofs.World.Moves

/-!
# Moves that get a cursor on

A move that a trigger brings about on time is never refused: it adds to the history of the cursor, and it
leaves the cursor at the next step, at its end, or waiting for a new timer. Where no delay is empty, that
timer is not due yet. The lemmas follow the definitions, for a cursor that is stored as it was read.
-/

namespace MailCampaign

/-- A cursor whose history goes on from that of another one. -/
def Cursor.Further (c d : Cursor) : Prop := ∃ s rest, d.history = c.history ++ s :: rest

/-- What comes of a trigger that a cursor was ready for, if no time was out of range: the history of the
cursor goes on, and if delays take time then the cursor has no timer that is due. -/
inductive Cursor.Fired (c : Cursor) (now : Instant) (patient : Prop) :
    Except Fault Outcome → World → Prop
  | went {o : Outcome} {w : World} {d : Cursor} : o ≠ .ignored → w.cursors.find? c.key = some d →
      c.Further d → (patient → d.dueAt now = false) → Fired c now patient (.ok o) w
  | outOfRange (w : World) : Fired c now patient (.error .outOfRange) w

namespace Cursor

variable {b c d : Cursor} {now : Instant} {patient : Prop} {r : Except Fault Outcome} {w v : World}

theorem Further.of_prefix (h : c.Further d) (hb : b.history <+: c.history) : b.Further d := by
  obtain ⟨more, hmore⟩ := hb
  obtain ⟨s, rest, hd⟩ := h
  rw [← hmore, List.append_assoc] at hd
  cases more with
  | nil => exact ⟨s, rest, hd⟩
  | cons u more => exact ⟨u, more ++ s :: rest, hd⟩

theorem Further.prefix (h : c.Further d) : c.history <+: d.history := by
  obtain ⟨s, rest, hd⟩ := h
  exact ⟨s :: rest, hd.symm⟩

theorem Further.trans_prefix (h : c.Further d) (hb : d.history <+: b.history) : c.Further b := by
  obtain ⟨s, rest, hd⟩ := h
  obtain ⟨more, hmore⟩ := hb
  exact ⟨s, rest ++ more, by rw [← hmore, hd, List.append_assoc, List.cons_append]⟩

/-- One line more. -/
theorem Further.line {s : Step} (h : d.history = c.history ++ [s]) : c.Further d := ⟨s, [], h⟩

theorem dueAt_of_none (h : c.nextRun = none) : c.dueAt now = false := by rw [dueAt, h]

theorem dueAt_of_later {due : Instant} (h : c.nextRun = some due) (hlt : now < due) :
    c.dueAt now = false := by
  rw [dueAt, h]
  refine decide_eq_false fun hle => ?_
  rw [Instant.lt_iff] at hlt
  rw [Instant.le_iff] at hle
  omega

theorem Fired.of_prefix (h : c.Fired now patient r w) (hk : b.key = c.key)
    (hb : b.history <+: c.history) : b.Fired now patient r w := by
  cases h with
  | went ho hd hf hdue => exact .went ho (hk ▸ hd) (hf.of_prefix hb) hdue
  | outOfRange => exact .outOfRange w

theorem Fired.congr (h : c.Fired now patient r w) (hv : v.cursors = w.cursors) :
    c.Fired now patient r v := by
  cases h with
  | went ho hd hf hdue => exact .went ho (hv ▸ hd) hf hdue
  | outOfRange => exact .outOfRange v

end Cursor

namespace RetryPolicy

/-- Neither the first nor the longest delay of a policy is empty. -/
structure Patient (policy : RetryPolicy) : Prop where
  base : 0 < policy.base.nanos
  longest : 0 < policy.longest.nanos

/-- Then no delay is. -/
theorem Patient.backoff_pos {policy : RetryPolicy} (h : policy.Patient) (attempt : UInt32) :
    0 < (policy.backoff attempt).nanos := by
  rw [backoff, Span.nanos_shorter]
  refine Int.lt_min.2 ⟨?_, h.longest⟩
  cases ht : policy.base.times? (1 <<< doublings attempt : Nat) with
  | none => exact h.longest
  | some d =>
    rw [Option.getD_some, Span.nanos_of_times? ht, Nat.one_shiftLeft]
    exact Int.mul_pos h.base (Int.natCast_pos.2 (Nat.two_pow_pos _))

end RetryPolicy

/-- No delay of a flow is empty, nor is one of a policy. -/
structure World.Patient (w : World) (policy : RetryPolicy) : Prop where
  delays : ∀ id g, w.flows.find? id = some g → ∀ n ∈ g.definition.document.nodes,
    ∀ wait, n.action = .delay wait → wait.isZero = false
  policy : policy.Patient

theorem World.Patient.of_flows {w v : World} {policy : RetryPolicy} (h : w.Patient policy)
    (hv : v.flows = w.flows) : v.Patient policy := ⟨by rw [hv]; exact h.delays, h.policy⟩

/-- Counting an event on a stored cursor changes its counters at most. -/
theorem World.count_own {w : World} {key : CursorKey} {c : Cursor} (hc : w.cursors.find? key = some c)
    (e : Engagement) (received : Instant) :
    ∃ n, (w.count e (some key) received).cursors.find? key = some { c with counters := n } := by
  unfold count
  split
  · exact ⟨c.counters, hc⟩
  · next v hv =>
    obtain ⟨s, -, rfl⟩ := Option.map_eq_some_iff.1 hv
    refine ⟨(counted e c).counters, ?_⟩
    refine (find?_countOnCursor e _ key key).trans ?_
    rw [if_pos rfl, ← Cursor.counted_eq]
    exact congrArg (Option.map _) hc

namespace Change

/-- A change that gets a cursor on from a world. -/
def Fires (c : Cursor) (now : Instant) (patient : Prop) (e : Change Outcome) (w : World) : Prop :=
  c.Fired now patient (e.on w).1 (e.on w).2

variable {α : Type} {b c d : Cursor} {g : Graph} {node : Node} {key : CursorKey} {now : Instant}
  {patient : Prop} {w v : World}

namespace Fires

theorem of_eq {e : Change Outcome} {r : Except Fault Outcome} (he : e.on w = (r, v))
    (h : c.Fired now patient r v) : e.Fires c now patient w := by
  rw [Fires, he]
  exact h

theorem bind {e : Change α} {f : α → Change Outcome} {a : α} (he : e.on w = (.ok a, v))
    (h : (f a).Fires c now patient v) : (e >>= f).Fires c now patient w := by
  rw [Fires, on_bind_ok he]
  exact h

theorem of_prefix {e : Change Outcome} (h : e.Fires c now patient w) (hk : b.key = c.key)
    (hb : b.history <+: c.history) : e.Fires b now patient w := Cursor.Fired.of_prefix h hk hb

/-- A change keeps its outcome through a report that follows it. -/
theorem report {e : Change Outcome} (h : e.Fires c now patient w) (cursor : Cursor)
    (milestone : Milestone) (nodeId : String) (time : Instant) :
    (do
      let outcome ← e
      apply (·.report cursor milestone nodeId time)
      return outcome : Change Outcome).Fires c now patient w := by
  rcases hr : e.on w with ⟨x | o, v⟩ <;> rw [Fires, hr] at h
  · exact .of_eq (on_bind_error hr) h
  · exact .of_eq (on_bind_ok hr) (h.congr rfl)

end Fires

/-! ## Ends -/

/-- Counting and reporting the end of a cursor that is stored without a timer. -/
theorem finish_fires {nodeId : String} {state : CursorState} {milestone : Milestone} {time : Instant}
    (hd : w.cursors.find? c.key = some d) (hf : c.Further d) (hn : d.nextRun = none) :
    (finish b nodeId state milestone time).Fires c now patient w := by
  have hcursors := (booked_finish b nodeId state milestone time w).cursors
  exact .of_eq (on_finish _ _ _ _ _ _)
    (.went nofun (hcursors ▸ hd) hf fun _ => Cursor.dueAt_of_none hn)

theorem fail_fires (reason : String) (hc : w.cursors.find? c.key = some c)
    (hr : c.state.terminal = false) : (fail c.key reason now).Fires c now patient w := by
  have hpermit : permit c .failed { (c.log "cursor" "failed" .failed now).release with
      failure := some reason } = .ok _ := if_pos (mayBecome_of_running hr (.inr rfl))
  unfold fail
  exact .bind (revise_ok hc hpermit)
    (finish_fires (World.find?_storeCursor_self hc rfl) (.line rfl) rfl)

/-- Cancelling a running cursor. -/
theorem cancel_fires (reason : String) (hc : w.cursors.find? c.key = some c)
    (hr : c.state.terminal = false) :
    ∃ v, (cancel c.key reason now).on w = (.ok true, v) ∧
      c.Fired now patient (.ok (.finished .canceled)) v := by
  have hcursors := (booked_finish c c.nodeId .canceled (.canceled reason) now
    (w.storeCursor c (canceled reason now c))).cursors
  have hstored : (w.storeCursor c (canceled reason now c)).cursors.find? c.key =
      some (canceled reason now c) := World.find?_storeCursor_self hc rfl
  rw [← hcursors] at hstored
  refine ⟨_, ?_, .went nofun hstored (.line rfl) fun _ => Cursor.dueAt_of_none rfl⟩
  unfold cancel
  rw [on_bind_ok (on_cursor_some hc), if_neg (by rw [hr]; nofun)]
  rfl

/-! ## Leaving a step -/

/-- A running cursor leaves its step, for good only where it may. -/
theorem advance_fires {branch : Branch} {outcome : String} (hc : w.cursors.find? d.key = some c)
    (hn : c.nodeId = node.id) (hr : c.state.terminal = false)
    (hend : g.next? node.id branch = none → c.state.mayBecome .completed = true) :
    (advance g d node branch outcome now).Fires c now patient w := by
  have hown : w.cursors.find? c.key = some c := CursorStore.key_eq_of_find? hc ▸ hc
  unfold advance
  cases hnext : g.next? node.id branch with
  | some next =>
    have hmay := mayBecome_of_running hr (.inl rfl)
    refine .of_eq (on_bind_ok (discard_ok (move_ok (·.moveTo next.id) hc hn hmay))) ?_
    exact .went nofun (World.find?_storeCursor_self hown rfl) (.line rfl)
      fun _ => Cursor.dueAt_of_none rfl
  | none =>
    exact .bind (discard_ok (move_ok Cursor.release hc hn (hend hnext)))
      (finish_fires (World.find?_storeCursor_self hown rfl) (.line rfl) rfl)

/-! ## Delays and goals -/

theorem scheduleDelay_fires {wait : Wait} (hc : w.cursors.find? c.key = some c)
    (hn : c.nodeId = node.id) (he : c.state.entering = true) (hwait : patient → wait.isZero = false) :
    (scheduleDelay c node wait now).Fires c now patient w := by
  unfold scheduleDelay
  rcases on_after now wait.span w with ⟨fireAt, ht, hon⟩ | hon
  · refine .bind hon (.bind (discard_ok (move_ok _ hc hn (mayBecome_of_entering he nofun)))
      (.of_eq rfl (.went nofun (World.find?_storeCursor_self hc rfl) (.line rfl) ?_)))
    exact fun hp => Cursor.dueAt_of_later rfl (Instant.lt_add? (Wait.span_pos (hwait hp)) ht)
  · exact .of_eq (on_bind_error hon) (.outOfRange w)

theorem reachGoal_fires (hc : w.cursors.find? c.key = some c) (hn : c.nodeId = node.id)
    (he : c.state.entering = true) (hnone : c.nextRun = none) :
    (reachGoal c node now).Fires c now patient w := by
  unfold reachGoal
  exact .bind (discard_ok (move_ok _ hc hn (mayBecome_of_entering he nofun)))
    (finish_fires (World.find?_storeCursor_self hc rfl) (.line rfl) hnone)

/-! ## Conditions -/

/-- A window that is over has an answer, and the condition is left on it. -/
theorem exists_decisive {k : Condition} {win : Window} {cause : Cause} (hlate : win.deadline ≤ now)
    (hcause : cause ≠ .event) :
    ∃ branch, branch ≠ .next ∧ decisive k cause (Verdict.ofWindow k win now) = some branch := by
  have hverdict : (Verdict.ofWindow k win now).branch?.isSome = true := by
    unfold Verdict.ofWindow Verdict.evaluate
    rw [if_pos hlate]
    split <;> cases k.mode <;> rfl
  obtain ⟨branch, hbranch⟩ := Option.isSome_iff_exists.1 hverdict
  refine ⟨branch, Verdict.branch?_ne_next hbranch, ?_⟩
  rw [decisive, if_neg fun h => hcause h.1, hbranch]

theorem resolve_fires {k : Condition} {win : Window} {cause : Cause}
    (hc : w.cursors.find? c.key = some c) (hn : c.nodeId = node.id) (hs : c.state = .waitingCondition)
    (hw : c.window = some win) (hwin : win.nodeId = node.id) (hlate : win.deadline ≤ now)
    (hcause : cause ≠ .event)
    (hnext : ∀ branch, branch ≠ .next → ∃ next, g.next? node.id branch = some next) :
    (resolve g c node k cause now).Fires c now patient w := by
  obtain ⟨branch, hbranch, hdecisive⟩ := exists_decisive (k := k) hlate hcause
  obtain ⟨next, hnext⟩ := hnext branch hbranch
  unfold resolve
  rw [hw, Option.filter_some, if_pos (beq_iff_eq.2 hwin)]
  dsimp only
  rw [hdecisive]
  refine (advance_fires hc hn (by rw [hs]; rfl) fun hnone => ?_).report _ _ _ _
  rw [hnext] at hnone
  cases hnone

theorem enterCondition_fires {k : Condition} (hc : w.cursors.find? c.key = some c)
    (hn : c.nodeId = node.id) (he : c.state.entering = true)
    (hnext : ∀ branch, branch ≠ .next → ∃ next, g.next? node.id branch = some next) :
    (enterCondition g c node k now).Fires c now patient w := by
  unfold enterCondition
  rcases on_after now k.wait.span w with ⟨deadline, ht, hon⟩ | hon
  · refine .bind hon (.bind (move_ok _ hc hn (mayBecome_of_entering he nofun)) ?_)
    have hstored := World.find?_storeCursor_self (d := { c.log node.action.name "condition_entered"
      .waitingCondition now with
        nextRun := some deadline, window := some ⟨node.id, now, deadline, []⟩ }) hc rfl
    by_cases hlate : deadline ≤ now
    · refine Fires.of_prefix (resolve_fires hstored hn rfl rfl rfl ?_ ?_ hnext) rfl
        (List.prefix_append _ _)
      · exact hlate
      · nofun
    · rw [resolve_opening hlate rfl]
      refine .of_eq (on_pure _ _) (.went nofun hstored (.line rfl) fun _ => ?_)
      exact decide_eq_false hlate
  · exact .of_eq (on_bind_error hon) (.outOfRange w)

/-! ## Mails -/

theorem settleMail_fires {policy : RetryPolicy} {result : Except SendFault String}
    (hc : w.cursors.find? c.key = some c) (hn : c.nodeId = node.id) (hs : c.Sendable now)
    (hpolicy : patient → policy.Patient) :
    (settleMail policy g c node now result).Fires c now patient w := by
  have hr : c.state.terminal = false := by
    rcases hs with he | ⟨hs, -⟩
    · exact CursorState.terminal_of_entering he
    · rw [hs]
      rfl
  have hmay := mayBecome_waitingDelay hs
  rcases result with (reason | reason) | messageId
  · show (mailFailed policy c node reason now).Fires c now patient w
    unfold mailFailed
    dsimp only
    split
    · exact fail_fires _ hc hr
    · rcases on_after now (policy.backoff (c.retries + 1)) w with ⟨retryAt, ht, hon⟩ | hon
      · refine .bind hon (.bind (discard_ok (move_ok _ hc hn hmay)) (.of_eq rfl
          (.went nofun (World.find?_storeCursor_self hc rfl) (.line rfl) fun hp => ?_)))
        exact Cursor.dueAt_of_later rfl (Instant.lt_add? ((hpolicy hp).backoff_pos _) ht)
      · exact .of_eq (on_bind_error hon) (.outOfRange w)
  · exact fail_fires _ hc hr
  · show (mailSent g c node messageId now).Fires c now patient w
    obtain ⟨n, hcounted⟩ := World.count_own hc (sentEvent c messageId now) now
    unfold mailSent
    refine .bind rfl (Fires.of_prefix (advance_fires hcounted hn hr fun _ => ?_) rfl
      List.prefix_rfl)
    show c.state.mayBecome .completed = true
    cases hstate : c.state <;> rw [hstate] at hmay <;> first | rfl | cases hmay

end Change

end MailCampaign
