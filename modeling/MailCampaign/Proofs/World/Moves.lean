import MailCampaign.Proofs.World.Follow

/-!
# What moves come to

A move of a cursor takes a course in which that cursor alone takes turns, and `Lands` says where it
leaves the cursor: at a step further on when it moved, else at rest, parked or at its end. So a move
either has the cursor run its next step at once or needs nothing more for it until its timer is due.
The lemmas follow the definitions. Those for mails allow that the stored cursor is not the one that
was read before the mail, as it may have been canceled or counted on meanwhile.
-/

namespace MailCampaign

/-- The cursor of a key is not about to run its step, unless it was left so. -/
def Rests (key : CursorKey) (idle : Prop) (w : World) : Prop :=
  ∀ c, w.cursors.find? key = some c → c.state.entering = true → idle

/-- Where a change leaves the cursor of a key: at a step further on if it says so, else at rest. Only
a time out of range leaves it open. -/
inductive Lands (key : CursorKey) (onward : String → Prop) (idle : Prop) :
    Except Fault Outcome → World → Prop
  | moved {w : World} {c : Cursor} : w.cursors.find? key = some c → c.state = .active →
      onward c.nodeId → Lands key onward idle (.ok .moved) w
  | rests {w : World} {o : Outcome} : o ≠ .moved → Rests key idle w →
      Lands key onward idle (.ok o) w
  | clash {w : World} (x : Clash) : Rests key idle w → Lands key onward idle (.error (.clash x)) w
  | outOfRange (w : World) : Lands key onward idle (.error .outOfRange) w

theorem Rests.of_find? {key : CursorKey} {idle : Prop} {w : World} {c : Cursor}
    (hc : w.cursors.find? key = some c) (hs : c.state.entering = false) : Rests key idle w := by
  intro d hd he
  rw [hc] at hd
  rw [← Option.some.inj hd, hs] at he
  cases he

theorem Rests.mono {key : CursorKey} {idle idle' : Prop} {w : World} (h : Rests key idle w)
    (hi : idle → idle') : Rests key idle' w := fun c hc he => hi (h c hc he)

namespace Lands

variable {key : CursorKey} {onward onward' : String → Prop} {idle idle' : Prop}
  {r : Except Fault Outcome} {w v : World}

theorem mono (h : Lands key onward idle r w) (ho : ∀ id, onward id → onward' id)
    (hi : idle → idle') : Lands key onward' idle' r w := by
  cases h with
  | moved hc hs hn => exact .moved hc hs (ho _ hn)
  | rests hm hr => exact .rests hm (hr.mono hi)
  | clash x hr => exact .clash x (hr.mono hi)
  | outOfRange => exact .outOfRange w

theorem congr (h : Lands key onward idle r w) (hv : v.cursors = w.cursors) :
    Lands key onward idle r v := by
  cases h with
  | moved hc hs hn => exact .moved (hv ▸ hc) hs hn
  | rests hm hr => exact .rests hm fun c hc => hr c (hv ▸ hc)
  | clash x hr => exact .clash x fun c hc => hr c (hv ▸ hc)
  | outOfRange => exact .outOfRange v

theorem of_moved (h : Lands key onward idle (.ok .moved) w) :
    ∃ c, w.cursors.find? key = some c ∧ c.state = .active ∧ onward c.nodeId := by
  cases h with
  | moved hc hs hn => exact ⟨_, hc, hs, hn⟩
  | rests hm => exact absurd rfl hm

/-- What did not move on has gone nowhere. -/
theorem stopped (h : Lands key onward idle r w) (hr : r ≠ .ok .moved) :
    Lands key (fun _ => False) idle r w := by
  cases h with
  | moved => exact absurd rfl hr
  | rests hm hrest => exact .rests hm hrest
  | clash x hrest => exact .clash x hrest
  | outOfRange => exact .outOfRange w

/-- What went nowhere left the cursor at rest, unless a time was out of range. -/
theorem rested (h : Lands key (fun _ => False) idle r w) (hr : r ≠ .error .outOfRange) :
    Rests key idle w := by
  cases h with
  | moved _ _ hn => exact hn.elim
  | rests _ hrest => exact hrest
  | clash _ hrest => exact hrest
  | outOfRange => exact absurd rfl hr

end Lands

namespace Change

/-- A change takes a course within a scope and leaves the cursor of a key as `Lands` says. -/
structure Steps (policy : RetryPolicy) (scope : Scope) (key : CursorKey) (onward : String → Prop)
    (idle : Prop) (c : Change Outcome) (w : World) : Prop where
  course : w.Course policy scope (c.on w).2
  lands : Lands key onward idle (c.on w).1 (c.on w).2

section Steps

variable {policy : RetryPolicy} {scope : Scope} {key : CursorKey} {onward onward' : String → Prop}
  {idle idle' : Prop} {w v : World} {α : Type}

theorem Steps.of_eq {c : Change Outcome} {r : Except Fault Outcome} (hc : c.on w = (r, v))
    (hv : w.Course policy scope v) (hl : Lands key onward idle r v) :
    c.Steps policy scope key onward idle w := ⟨by rw [hc]; exact hv, by rw [hc]; exact hl⟩

theorem Steps.mono {c : Change Outcome} (h : c.Steps policy scope key onward idle w)
    (ho : ∀ id, onward id → onward' id) (hi : idle → idle') :
    c.Steps policy scope key onward' idle' w := ⟨h.course, h.lands.mono ho hi⟩

theorem Steps.bind {d : Change α} {f : α → Change Outcome} {a : α} (hd : d.on w = (.ok a, v))
    (hv : w.Course policy scope v) (h : (f a).Steps policy scope key onward idle v) :
    (d >>= f).Steps policy scope key onward idle w := by
  constructor
  · rw [on_bind_ok hd]; exact hv.trans h.course
  · rw [on_bind_ok hd]; exact h.lands

theorem Steps.bind_error {d : Change α} {f : α → Change Outcome} {x : Fault}
    (hd : d.on w = (.error x, v)) (hv : w.Course policy scope v)
    (hl : Lands key onward idle (.error x) v) :
    (d >>= f).Steps policy scope key onward idle w := .of_eq (on_bind_error hd) hv hl

/-- A change keeps its outcome through a report that follows it. -/
theorem Steps.report {c : Change Outcome} (h : c.Steps policy scope key onward idle w)
    (cursor : Cursor) (milestone : Milestone) (nodeId : String) (now : Instant) :
    (do
      let outcome ← c
      apply (·.report cursor milestone nodeId now)
      return outcome : Change Outcome).Steps policy scope key onward idle w := by
  obtain ⟨hcourse, hl⟩ := h
  rcases hr : c.on w with ⟨x | o, v⟩ <;> rw [hr] at hcourse hl
  · exact .of_eq (on_bind_error hr) hcourse hl
  · have hbooked := World.booked_report v cursor milestone nodeId now
    exact .of_eq (on_bind_ok hr) (hcourse.trans hbooked.course) (hl.congr hbooked.cursors)

end Steps

/-! ## Revising a cursor -/

section Moves

variable {policy : RetryPolicy} {scope : Scope} {w : World} {key : CursorKey} {g : Graph}
  {node : Node} {c d : Cursor} {now : Instant}

theorem discard_ok {α : Type} {e : Change α} {a : α} {v : World} (h : e.on w = (.ok a, v)) :
    (discard e).on w = (.ok ⟨⟩, v) := by rw [on_discard, h]; rfl

theorem discard_error {α : Type} {e : Change α} {x : Fault} {v : World}
    (h : e.on w = (.error x, v)) : (discard e).on w = (.error x, v) := by rw [on_discard, h]; rfl

theorem revise_ok {f : Cursor → Except Fault Cursor} (hc : w.cursors.find? key = some c)
    (hf : f c = .ok d) : (revise key f).on w = (.ok d, w.storeCursor c d) := by
  unfold revise
  rw [on_bind_ok (on_cursor_some hc), hf]
  rfl

theorem revise_error {f : Cursor → Except Fault Cursor} {x : Fault}
    (hc : w.cursors.find? key = some c) (hf : f c = .error x) :
    (revise key f).on w = (.error x, w.storeCursor c c) := by
  unfold revise
  rw [on_bind_ok (on_cursor_some hc), hf]
  rfl

theorem move_ok {state : CursorState} {outcome : String} (f : Cursor → Cursor)
    (hc : w.cursors.find? key = some c) (hn : c.nodeId = node.id)
    (hs : c.state.mayBecome state = true) :
    (move key node state outcome now f).on w =
      (.ok (f (c.log node.action.name outcome state now)),
        w.storeCursor c (f (c.log node.action.name outcome state now))) := by
  unfold move
  rw [revise_ok hc]
  rw [hn, bne_self_eq_false, if_neg Bool.false_ne_true, permit, if_pos hs]

/-- A move that the state of the cursor does not allow is refused. -/
theorem move_clash {state : CursorState} {outcome : String} (f : Cursor → Cursor)
    (hc : w.cursors.find? key = some c) (hs : c.state.mayBecome state = false) :
    ∃ x, (move key node state outcome now f).on w = (.error (.clash x), w.storeCursor c c) := by
  unfold move
  by_cases hn : c.nodeId = node.id
  · refine ⟨.transition c.state state, revise_error hc ?_⟩
    rw [hn, bne_self_eq_false, if_neg Bool.false_ne_true, permit, if_neg (by rw [hs]; nofun)]
  · refine ⟨.moved key node.id, revise_error hc ?_⟩
    rw [if_pos (bne_iff_ne.2 hn)]

/-- A refused move leaves a cursor that does not enter at rest. -/
theorem Steps.of_clash {onward : String → Prop} {state : CursorState} {outcome : String}
    {f : Cursor → Cursor} {k : PUnit → Change Outcome} (hc : w.cursors.find? key = some c)
    (hs : c.state.mayBecome state = false) (he : c.state.entering = false) :
    ((discard <| move key node state outcome now f) >>= k).Steps policy scope key onward False w := by
  have hmove : ∃ x, (move key node state outcome now f).on w =
      (.error (.clash x), w.storeCursor c c) := move_clash f hc hs
  obtain ⟨x, hx⟩ := hmove
  exact .bind_error (discard_error hx) (.single (.kept hc))
    (.clash x (.of_find? (World.find?_storeCursor_self hc rfl) he))

/-- A cursor that runs may always move on or fail. -/
theorem mayBecome_of_running (h : c.state.terminal = false) {state : CursorState}
    (hs : state = .active ∨ state = .failed) : c.state.mayBecome state = true := by
  cases hc : c.state <;> rw [hc] at h <;>
    first
    | rcases hs with rfl | rfl <;> rfl
    | cases h

/-- A cursor that enters may become anything but pending. -/
theorem mayBecome_of_entering (h : c.state.entering = true) {state : CursorState}
    (hs : state ≠ .pending) : c.state.mayBecome state = true := by
  cases hc : c.state <;> rw [hc] at h <;> cases state <;> first | rfl | exact absurd rfl hs | cases h

/-- Counting and reporting an end leaves the cursors alone. -/
theorem finish_steps {onward : String → Prop} {nodeId : String} {state : CursorState}
    {milestone : Milestone} (hd : w.cursors.find? key = some d) (he : d.state.entering = false) :
    (finish c nodeId state milestone now).Steps policy scope key onward False w := by
  have hbooked := booked_finish c nodeId state milestone now w
  have hfind := hbooked.cursors ▸ hd
  exact .of_eq (on_finish _ _ _ _ _ _) hbooked.course (.rests nofun (.of_find? hfind he))

/-- A cursor whose mail may be sent may wait for another attempt. -/
theorem mayBecome_waitingDelay (h : c.Sendable now) : c.state.mayBecome .waitingDelay = true := by
  rcases h with h | ⟨h, -⟩
  · exact mayBecome_of_entering h nofun
  · rw [h]; rfl

/-! ## Leaving a step -/

/-- A cursor that leaves its step is at the next one, or at its end when there is none. -/
theorem advance_steps {branch : Branch} {outcome : String} (ho : scope.turns d.key)
    (hc : w.cursors.find? d.key = some c) (hat : c.At w.flows g node)
    (hl : c.Leaves node now branch outcome) :
    (advance g d node branch outcome now).Steps policy scope d.key (g.Joins node.id) False w := by
  unfold advance
  cases hn : g.next? node.id branch with
  | some next =>
    refine .of_eq (on_bind_ok (discard_ok (move_ok (fun c => c.moveTo next.id) hc hat.nodeId
      (mayBecome_of_running hl.running (.inl rfl))))) (.single (.turn ho hc (.moved hat hl hn))) ?_
    exact .moved (World.find?_storeCursor_self hc rfl) rfl ⟨branch, next, hn, rfl⟩
  | none =>
    cases hb : c.state.mayBecome .completed with
    | false =>
      -- Only a cursor at a condition may not be completed, and it does not enter.
      refine .of_clash hc hb ?_
      cases hs : c.state <;> rw [hs] at hb <;> first | rfl | cases hb
    | true =>
      exact .bind (discard_ok (move_ok Cursor.release hc hat.nodeId hb))
        (.single (.turn ho hc (.completed hat hl hn hb)))
        (finish_steps (World.find?_storeCursor_self hc rfl) rfl)

/-- A cursor that ended does not leave its step. -/
theorem advance_terminal {branch : Branch} {outcome : String} {onward : String → Prop}
    (hc : w.cursors.find? d.key = some c) (ht : c.state.terminal = true) :
    (advance g d node branch outcome now).Steps policy scope d.key onward False w := by
  have he := CursorState.entering_of_terminal ht
  unfold advance
  cases g.next? node.id branch with
  | some next => exact .of_clash hc (CursorState.mayBecome_of_terminal ht _) he
  | none => exact .of_clash hc (CursorState.mayBecome_of_terminal ht _) he

/-- Failing ends a cursor that runs, and leaves one that ended alone. -/
theorem fail_steps {onward : String → Prop} (reason : String) (ho : scope.turns key)
    (hc : w.cursors.find? key = some c) :
    (fail key reason now).Steps policy scope key onward False w := by
  unfold fail
  cases ht : c.state.terminal with
  | false =>
    have hf : permit c .failed { (c.log "cursor" "failed" .failed now).release with
        failure := some reason } = .ok _ := if_pos (mayBecome_of_running ht (.inr rfl))
    exact .bind (revise_ok hc hf) (.single (.turn ho hc (.failed reason now ht)))
      (finish_steps (World.find?_storeCursor_self hc rfl) rfl)
  | true =>
    have hf : permit c .failed { (c.log "cursor" "failed" .failed now).release with
        failure := some reason } = .error _ :=
      if_neg (by rw [CursorState.mayBecome_of_terminal ht]; nofun)
    exact .bind_error (revise_error hc hf) (.single (.kept hc))
      (.clash _ (.of_find? (World.find?_storeCursor_self hc rfl)
        (CursorState.entering_of_terminal ht)))

/-! ## Delays and goals -/

/-- A time that is needed is there, or it is out of range. -/
theorem on_after (now : Instant) (span : Span) (w : World) :
    (∃ t, now.add? span = some t ∧ (after now span).on w = (.ok t, w)) ∨
      (after now span).on w = (.error .outOfRange, w) := by
  unfold after
  cases now.add? span with
  | none => exact .inr rfl
  | some t => exact .inl ⟨t, rfl, rfl⟩

theorem scheduleDelay_steps {wait : Wait} {onward : String → Prop} (ho : scope.turns c.key)
    (hc : w.cursors.find? c.key = some c) (hat : c.At w.flows g node)
    (ha : node.action = .delay wait) (he : c.state.entering = true) :
    (scheduleDelay c node wait now).Steps policy scope c.key onward False w := by
  unfold scheduleDelay
  rcases on_after now wait.span w with ⟨fireAt, ht, hon⟩ | hon
  · refine .bind hon .refl (.bind
      (discard_ok (move_ok _ hc hat.nodeId (mayBecome_of_entering he nofun)))
      (.single (.turn ho hc (.delayed hat ha he ht))) ?_)
    exact .of_eq rfl (World.booked_report _ _ _ _ _).course
      (.rests nofun (.of_find? (World.find?_storeCursor_self hc rfl) rfl))
  · exact .bind_error hon .refl (.outOfRange w)

theorem reachGoal_steps {goal : Goal} {onward : String → Prop} (ho : scope.turns c.key)
    (hc : w.cursors.find? c.key = some c) (hat : c.At w.flows g node)
    (ha : node.action = .goal goal) (he : c.state.entering = true) :
    (reachGoal c node now).Steps policy scope c.key onward False w := by
  unfold reachGoal
  exact .bind (discard_ok (move_ok _ hc hat.nodeId (mayBecome_of_entering he nofun)))
    (.single (.turn ho hc (.reached hat ha he)))
    (finish_steps (World.find?_storeCursor_self hc rfl) rfl)

/-! ## Conditions -/

/-- A cursor that waits at a condition leaves it on an answer, or waits on. -/
theorem resolve_steps {k : Condition} {cause : Cause} (ho : scope.turns c.key)
    (hc : w.cursors.find? c.key = some c) (hat : c.At w.flows g node)
    (ha : node.action = .condition k) (hs : c.state = .waitingCondition) :
    (resolve g c node k cause now).Steps policy scope c.key (g.Joins node.id) False w := by
  have hrests : Rests c.key False w := .of_find? hc (by rw [hs]; rfl)
  unfold resolve
  split
  · exact .of_eq rfl .refl (.rests nofun hrests)
  · next win hw =>
    obtain ⟨hw, hn⟩ := Option.filter_eq_some_iff.1 hw
    split
    · exact .of_eq rfl .refl (.rests nofun hrests)
    · next branch hb =>
      exact (advance_steps ho hc hat (.answered ha hs hw (beq_iff_eq.1 hn) hb)).report _ _ _ _

/-- The window of a condition that waits has no answer as it opens. -/
theorem ofWindow_opening {k : Condition} {nodeId : String} {deadline : Instant}
    (h : ¬ deadline ≤ now) : Verdict.ofWindow k ⟨nodeId, now, deadline, []⟩ now = .pending := by
  unfold Verdict.ofWindow Verdict.evaluate
  rw [List.any_nil, if_neg Bool.false_ne_true, if_neg h]

/-- A cursor stays at a condition that waits. -/
theorem resolve_opening {k : Condition} {deadline : Instant} (h : ¬ deadline ≤ now)
    (hw : c.window = some ⟨node.id, now, deadline, []⟩) (cause : Cause) :
    resolve g c node k cause now = pure .parked := by
  have hopen : decisive k cause (Verdict.ofWindow k ⟨node.id, now, deadline, []⟩ now) = none := by
    rw [ofWindow_opening h]
    unfold decisive
    split <;> rfl
  unfold resolve
  rw [hw, Option.filter_some, if_pos (beq_self_eq_true node.id)]
  simp only [hopen]

/-- A cursor that comes to a condition leaves it at once only if the condition does not wait. -/
theorem enterCondition_steps {k : Condition} (ho : scope.turns c.key)
    (hc : w.cursors.find? c.key = some c) (hat : c.At w.flows g node)
    (ha : node.action = .condition k) (he : c.state.entering = true) :
    (enterCondition g c node k now).Steps policy scope c.key
      (fun id => g.Joins node.id id ∧ k.wait.isZero = true) False w := by
  unfold enterCondition
  rcases on_after now k.wait.span w with ⟨deadline, ht, hon⟩ | hon
  · refine .bind hon .refl (.bind (move_ok _ hc hat.nodeId (mayBecome_of_entering he nofun))
      (.single (.turn ho hc (.watched hat ha he ht))) ?_)
    cases hz : k.wait.isZero with
    | true =>
      refine Steps.mono (resolve_steps (c := { c.log node.action.name "condition_entered"
        .waitingCondition now with
          nextRun := some deadline, window := some ⟨node.id, now, deadline, []⟩ }) ho
        (World.find?_storeCursor_self hc rfl) ⟨hat.version, hat.step⟩ ha rfl) ?_ id
      exact fun _ h => ⟨h, rfl⟩
    | false =>
      have hnot : ¬ deadline ≤ now := by
        have := Instant.lt_add? (Wait.span_pos hz) ht
        rw [Instant.lt_iff] at this
        rw [Instant.le_iff]
        omega
      rw [resolve_opening hnot rfl]
      exact .of_eq rfl .refl (.rests nofun (.of_find? (World.find?_storeCursor_self hc rfl) rfl))
  · exact .bind_error hon .refl (.outOfRange w)

theorem observed_eq_some {e : Engagement} (h : observed e node now c = some d) :
    ∃ win, c.window = some win ∧ win.nodeId = node.id ∧
      d = { c with window := some (withEvent e now win) } := by
  unfold observed at h
  split at h
  · next win hw =>
    split at h
    · next hn => exact ⟨win, hw, hn.2, (Option.some.inj h).symm⟩
    · cases h
  · cases h

/-- An event that a cursor does not wait for is passed over; one that it waits for is noted, and the
cursor leaves its condition when that answers it. -/
theorem observe_steps {k : Condition} {e : Engagement} (ho : scope.turns c.key)
    (hc : w.cursors.find? c.key = some c) (hat : c.At w.flows g node)
    (ha : node.action = .condition k) (hs : c.state = .waitingCondition) :
    (observe g c node k e now).Steps policy scope c.key (g.Joins node.id) False w := by
  have he : c.state.entering = false := by rw [hs]; rfl
  unfold observe
  split
  · exact .of_eq rfl .refl (.rests nofun (.of_find? hc he))
  · next hlisten =>
    simp only [Bool.or_eq_true, bne_iff_ne, ne_eq, Bool.not_eq_true', not_or, not_not,
      Bool.not_eq_false] at hlisten
    refine .bind (on_cursor_some hc) .refl ?_
    split
    · exact .of_eq rfl (.single (.kept hc))
        (.rests nofun (.of_find? (World.find?_storeCursor_self hc rfl) he))
    · next d hd =>
      obtain ⟨win, hw, hn, rfl⟩ := observed_eq_some hd
      exact .bind rfl (.single (.turn ho hc (.noted hat ha hs hw hn hlisten.1 hlisten.2)))
        (resolve_steps (c := { c with window := some (withEvent e now win) }) ho
          (World.find?_storeCursor_self hc rfl) ⟨hat.version, hat.step⟩ ha hs)

/-! ## Mails

The cursor `c` was stored in a world `u`, and from there a course led to `w` in which the cursor
took no turn. -/

variable {u : World} {mail : Mail} {during : Scope}

theorem advance_sent_steps (ho : scope.turns c.key) (hu : u.cursors.find? c.key = some c)
    (hn : ¬ during.turns c.key) (hw : u.Course policy during w) (hat : c.At u.flows g node)
    (ha : node.action = .email mail) (hs : c.Sendable now) :
    (advance g c node .next "sent" now).Steps policy scope c.key (g.Joins node.id) False w := by
  obtain ⟨d, hd, ht | heq⟩ := hw.idled hn hu
  · exact advance_terminal hd ht
  · obtain ⟨n, rfl⟩ : ∃ n, d = { c with counters := n } := ⟨_, heq⟩
    exact advance_steps ho hd ⟨hw.grows _ _ hat.version, hat.step⟩ (.sent ha hs)

/-- A cursor whose mail was sent leaves its step, unless it was canceled meanwhile. -/
theorem mailSent_steps {messageId : String} (ho : scope.turns c.key)
    (hu : u.cursors.find? c.key = some c) (hn : ¬ during.turns c.key)
    (hw : u.Course policy during w) (hat : c.At u.flows g node) (ha : node.action = .email mail)
    (hs : c.Sendable now) :
    (mailSent g c node messageId now).Steps policy scope c.key (g.Joins node.id) False w := by
  have hbooks : ∀ s : Scope, w.Course policy s
      ((w.count (sentEvent c messageId now) (some c.key) now).report c (.mailSent messageId) node.id
        now) := fun s =>
    (World.count_course w _ _ _).trans (World.booked_report _ _ _ _ _).course
  unfold mailSent
  exact .bind rfl (hbooks scope) (advance_sent_steps ho hu hn (hw.trans (hbooks _)) hat ha hs)

/-- A cursor whose mail was not sent waits for another attempt or fails, unless it was canceled
meanwhile. -/
theorem mailFailed_steps {reason : String} {onward : String → Prop} (ho : scope.turns c.key)
    (hu : u.cursors.find? c.key = some c) (hn : ¬ during.turns c.key)
    (hw : u.Course policy during w) (hat : c.At u.flows g node) (ha : node.action = .email mail)
    (hs : c.Sendable now) :
    (mailFailed policy c node reason now).Steps policy scope c.key onward False w := by
  obtain ⟨d, hd, hidle⟩ := hw.idled hn hu
  unfold mailFailed
  dsimp only
  split
  · exact fail_steps _ ho hd
  · next hlimit =>
    rcases on_after now (policy.backoff (c.retries + 1)) w with ⟨retryAt, ht, hon⟩ | hon
    · refine .bind hon .refl ?_
      rcases hidle with hterm | heq
      · exact .of_clash hd (CursorState.mayBecome_of_terminal hterm _)
          (CursorState.entering_of_terminal hterm)
      · obtain ⟨n, rfl⟩ : ∃ n, d = { c with counters := n } := ⟨_, heq⟩
        refine .bind (discard_ok (move_ok _ hd hat.nodeId (mayBecome_waitingDelay hs)))
          (.single (.turn ho hd (.retried ⟨hw.grows _ _ hat.version, hat.step⟩ ha hs
            (UInt32.not_lt.1 hlimit) ht))) ?_
        exact .of_eq rfl (World.booked_report _ _ _ _ _).course
          (.rests nofun (.of_find? (World.find?_storeCursor_self hd rfl) rfl))
    · exact .bind_error hon .refl (.outOfRange w)

theorem settleMail_steps {result : Except SendFault String} (ho : scope.turns c.key)
    (hu : u.cursors.find? c.key = some c) (hn : ¬ during.turns c.key)
    (hw : u.Course policy during w) (hat : c.At u.flows g node) (ha : node.action = .email mail)
    (hs : c.Sendable now) :
    (settleMail policy g c node now result).Steps policy scope c.key (g.Joins node.id) False w := by
  rcases result with (reason | reason) | messageId
  · exact mailFailed_steps ho hu hn hw hat ha hs
  · obtain ⟨d, hd, -⟩ := hw.idled hn hu
    exact fail_steps _ ho hd
  · exact mailSent_steps ho hu hn hw hat ha hs

end Moves

end Change

end MailCampaign
