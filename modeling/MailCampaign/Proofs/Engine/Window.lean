import MailCampaign.Proofs.Cursor.Route
import MailCampaign.Proofs.Engine.Step

/-!
# The window rule of conditions

A cursor that comes to a condition leaves it at the first trigger that answers the condition, and on
the branch of that answer. `Condition.answer` is the rule: a signal that the condition listens for, of
the campaign of the cursor and not after the deadline, as reported or else as received, or any other
trigger at or after the deadline. Until such a trigger the cursor waits with its window, and what comes
later finds it at the next step, where it has not yet come to anything (`Engine.feed_window`).
-/

namespace MailCampaign

namespace Condition

/-- The branch of a condition on which a signal leads. -/
def occurred (k : Condition) : Branch :=
  match k.mode with
  | .anyOf => .yes
  | .noneOf => .no

/-- The branch of a condition on which the end of its window leads. -/
def expired (k : Condition) : Branch :=
  match k.mode with
  | .anyOf => .no
  | .noneOf => .yes

/-- Whether a condition listens for an event, for a cursor of a campaign. -/
def Hears (k : Condition) (campaign : Uuid) (e : Engagement) : Prop :=
  e.campaignId = campaign ∧ k.watch.covers e.kind = true

instance (k : Condition) (campaign : Uuid) (e : Engagement) : Decidable (k.Hears campaign e) :=
  inferInstanceAs (Decidable (_ ∧ _))

/-- How a trigger at an instant answers a condition with a deadline, for a cursor of a campaign. -/
def answer (k : Condition) (campaign : Uuid) (deadline : Instant) (trigger : Trigger)
    (now : Instant) : Option Branch :=
  match trigger with
  | .event e => if k.Hears campaign e ∧ e.time.earlier now ≤ deadline then some k.occurred else none
  | _ => if deadline ≤ now then some k.expired else none

/-- What a trigger leaves in a window that opened at an instant. -/
def noted (k : Condition) (campaign : Uuid) (opens : Instant) (trigger : Trigger) (now : Instant) :
    Option Observation :=
  match trigger with
  | .event e => if k.Hears campaign e then some ⟨e.kind, (e.time.earlier now).later opens⟩ else none
  | _ => none

end Condition

/-- A cursor that came to a condition and waits there. -/
def Cursor.awaiting (c : Cursor) (node : Node) (opens deadline : Instant)
    (observed : List Observation) : Cursor :=
  { c.log node.action.name "condition_entered" .waitingCondition opens with
    nextRun := some deadline, window := some ⟨node.id, opens, deadline, observed⟩ }

/-- The cursor after the condition was left on a branch for the next step. -/
def Cursor.answered (c : Cursor) (node : Node) (opens : Instant) (branch : Branch) (now : Instant)
    (next : Node) : Cursor :=
  ((c.log node.action.name "condition_entered" .waitingCondition opens).log node.action.name
    branch.name .active now).moveTo next.id

/-- What an answer, or none, makes of a cursor that came to a condition: it is at the next step on the
branch of the answer, or it waits on. -/
inductive Cursor.Ruled (g : Graph) (key : CursorKey) (c : Cursor) (node : Node)
    (opens deadline : Instant) (observed : List Observation) (now : Instant) :
    Option Branch → Except Fault Outcome → World → Prop
  | waits {o : Outcome} {w : World} : o = .parked ∨ o = .ignored →
      w.cursors.find? key = some (c.awaiting node opens deadline observed) →
      Ruled g key c node opens deadline observed now none (.ok o) w
  | leaves {branch : Branch} {next : Node} {w : World} : g.next? node.id branch = some next →
      w.cursors.find? key = some (c.answered node opens branch now next) →
      Ruled g key c node opens deadline observed now (some branch) (.ok .moved) w

/-! ## Verdicts -/

namespace Verdict

variable {k : Condition} {opens deadline now : Instant} {observed : List Observation}

theorem branch?_onSignal (k : Condition) : (onSignal k.mode).branch? = some k.occurred := by
  unfold Condition.occurred
  cases k.mode <;> rfl

theorem branch?_onTimeout (k : Condition) : (onTimeout k.mode).branch? = some k.expired := by
  unfold Condition.expired
  cases k.mode <;> rfl

theorem onSignal_ne_onTimeout (mode : MatchMode) : onSignal mode ≠ onTimeout mode := by
  cases mode <;> nofun

/-- Observations after the deadline do not count. -/
theorem evaluate_late (h : ∀ o ∈ observed, ¬ o.time ≤ deadline) :
    evaluate k.watch k.mode observed opens deadline now =
      if deadline ≤ now then onTimeout k.mode else pending := by
  have hnone : observed.any (counts k.watch opens deadline now) = false := by
    rw [List.any_eq_false]
    intro o ho
    simp [counts, h o ho]
  unfold evaluate
  rw [hnone, if_neg Bool.false_ne_true]

/-- An observation that counts gives the verdict. -/
theorem evaluate_signal {o : Observation} (ho : o ∈ observed)
    (h : counts k.watch opens deadline now o = true) :
    evaluate k.watch k.mode observed opens deadline now = onSignal k.mode := by
  unfold evaluate
  rw [if_pos (List.any_eq_true.2 ⟨o, ho, h⟩)]

end Verdict

theorem Instant.later_le_iff {a b t : Instant} : a.later b ≤ t ↔ a ≤ t ∧ b ≤ t := by
  unfold Instant.later
  simp only [Instant.le_iff]
  split <;> omega

theorem Instant.earlier_le_right (a b : Instant) : a.earlier b ≤ b := by
  unfold Instant.earlier
  simp only [Instant.le_iff]
  split <;> omega

namespace Condition

variable {k : Condition} {campaign : Uuid} {opens deadline now : Instant}
  {observed : List Observation} {nodeId : String}

/-- What an event leaves in a window that it does not answer lies after the deadline. -/
theorem late_of_noted {trigger : Trigger} (hx : k.answer campaign deadline trigger now = none)
    {o : Observation} (h : k.noted campaign opens trigger now = some o) : ¬ o.time ≤ deadline := by
  cases trigger with
  | event e =>
    unfold noted at h
    unfold answer at hx
    dsimp only at h hx
    split at h
    · next hears =>
      obtain rfl := Option.some.inj h
      split at hx
      · cases hx
      · next hlate => exact fun hle => hlate ⟨hears, (Instant.later_le_iff.1 hle).1⟩
    · cases h
  | _ => cases h

theorem answer_event {e : Engagement} : k.answer campaign deadline (.event e) now =
    if k.Hears campaign e ∧ e.time.earlier now ≤ deadline then some k.occurred else none := rfl

theorem answer_timed {trigger : Trigger} (ht : trigger.cause ≠ .event) :
    k.answer campaign deadline trigger now = if deadline ≤ now then some k.expired else none := by
  cases trigger with
  | event e => exact absurd rfl ht
  | _ => rfl

/-- A window that has ended leads on, unless an event is the cause. -/
theorem decisive_late {cause : Cause} :
    Change.decisive k cause (if deadline ≤ now then Verdict.onTimeout k.mode else .pending) =
      if deadline ≤ now ∧ cause ≠ .event then some k.expired else none := by
  unfold Change.decisive
  by_cases hdue : deadline ≤ now
  · by_cases hc : cause = .event
    · simp [hdue, hc]
    · simp [hdue, hc, Verdict.branch?_onTimeout]
  · simp [hdue, Verdict.branch?]

/-- A signal leads on, whatever the cause. -/
theorem decisive_onSignal {cause : Cause} :
    Change.decisive k cause (Verdict.onSignal k.mode) = some k.occurred := by
  unfold Change.decisive
  rw [if_neg fun hc => Verdict.onSignal_ne_onTimeout _ hc.2]
  exact Verdict.branch?_onSignal k

/-- Coming to a condition and the timer answer it as the rule says. -/
theorem decisive_timed (h : ∀ o ∈ observed, ¬ o.time ≤ deadline) (trigger : Trigger)
    (ht : trigger.cause ≠ .event) :
    Change.decisive k trigger.cause (Verdict.ofWindow k ⟨nodeId, opens, deadline, observed⟩ now) =
      k.answer campaign deadline trigger now := by
  have hverdict : Verdict.ofWindow k ⟨nodeId, opens, deadline, observed⟩ now = _ :=
    Verdict.evaluate_late h
  rw [hverdict, decisive_late, answer_timed ht]
  simp only [ht, ne_eq, not_false_eq_true, and_true]

/-- So does an event that it listens for. -/
theorem decisive_event (h : ∀ o ∈ observed, ¬ o.time ≤ deadline) {e : Engagement}
    (hears : k.Hears campaign e) (ho : opens ≤ deadline) (hn : opens ≤ now) :
    Change.decisive k .event (Verdict.ofWindow k
        (Change.withEvent e now ⟨nodeId, opens, deadline, observed⟩) now) =
      k.answer campaign deadline (.event e) now := by
  rw [answer_event]
  by_cases hin : e.time.earlier now ≤ deadline
  · have hcounts : Verdict.counts k.watch opens deadline now
        ⟨e.kind, (e.time.earlier now).later opens⟩ = true := by
      simp only [Verdict.counts, Bool.and_eq_true, decide_eq_true_eq]
      exact ⟨⟨⟨hears.2, Instant.le_later _ _⟩, Instant.later_le_iff.2 ⟨hin, ho⟩⟩,
        Instant.later_le_iff.2 ⟨Instant.earlier_le_right _ _, hn⟩⟩
    have hverdict : Verdict.ofWindow k
        (Change.withEvent e now ⟨nodeId, opens, deadline, observed⟩) now = _ :=
      Verdict.evaluate_signal (List.mem_append_right _ (List.mem_singleton_self _)) hcounts
    rw [hverdict, decisive_onSignal, if_pos ⟨hears, hin⟩]
  · have hlate : ∀ o ∈ (Change.withEvent e now ⟨nodeId, opens, deadline, observed⟩).observed,
        ¬ o.time ≤ deadline := by
      intro o hmem
      rcases List.mem_append.1 hmem with hmem | hmem
      · exact h o hmem
      · rw [List.mem_singleton.1 hmem]
        exact fun hle => hin (Instant.later_le_iff.1 hle).1
    have hverdict : Verdict.ofWindow k
        (Change.withEvent e now ⟨nodeId, opens, deadline, observed⟩) now = _ :=
      Verdict.evaluate_late hlate
    rw [hverdict, decisive_late, if_neg fun hc => hc.2 rfl, if_neg fun hc => hin hc.2]

end Condition

/-! ## Leaving a condition -/

/-- A condition is left on each of its answers. -/
theorem Graph.next?_of_condition {g : Graph} {id : String} {node : Node} {k : Condition}
    (hn : g.node? id = some node) (ha : node.action = .condition k) {branch : Branch}
    (hb : branch ≠ .next) : ∃ next, g.next? node.id branch = some next := by
  obtain ⟨yes, no, hyes, hno, hperm⟩ :=
    g.lawful_flow.branches node (Document.mem_of_node? hn) k ha
  have hedge : ∃ e ∈ g.definition.document.outgoing node, e.branch = branch := by
    cases branch with
    | yes => exact ⟨yes, hperm.mem_iff.2 (by simp), hyes⟩
    | no => exact ⟨no, hperm.mem_iff.2 (by simp), hno⟩
    | next => exact absurd rfl hb
  obtain ⟨e, he, hbranch⟩ := hedge
  obtain ⟨hmem, hsource⟩ := List.mem_filter.1 he
  have hexit : (g.exit? node.id branch).isSome = true := by
    unfold Graph.exit?
    rw [List.find?_isSome]
    refine ⟨e, hmem, ?_⟩
    rw [hbranch, hsource, beq_self_eq_true, Bool.or_true]
    rfl
  obtain ⟨e', he'⟩ := Option.isSome_iff_exists.1 hexit
  have htarget := (g.lawful_flow.ends e' (Graph.mem_of_exit? he').1).2
  rw [Document.names_iff] at htarget
  obtain ⟨next, hnext⟩ := Option.isSome_iff_exists.1 htarget
  refine ⟨next, ?_⟩
  unfold Graph.next?
  rw [he']
  exact hnext

namespace Change

variable {g : Graph} {key : CursorKey} {node : Node} {k : Condition} {cause : Cause}
  {c : Cursor} {now opens deadline : Instant} {observed : List Observation} {w : World}
  {answer : Option Branch}

/-- A waiting cursor leaves its condition on the answer, or waits on when there is none. -/
theorem resolve_ruled (hn : g.node? c.nodeId = some node) (ha : node.action = .condition k)
    (hc : w.cursors.find? key = some (c.awaiting node opens deadline observed))
    (hv : decisive k cause (Verdict.ofWindow k ⟨node.id, opens, deadline, observed⟩ now) = answer) :
    c.Ruled g key node opens deadline observed now answer
      ((resolve g (c.awaiting node opens deadline observed) node k cause now).on w).1
      ((resolve g (c.awaiting node opens deadline observed) node k cause now).on w).2 := by
  have hwindow : (c.awaiting node opens deadline observed).window.filter
      (fun w => w.nodeId == node.id) = some ⟨node.id, opens, deadline, observed⟩ := by
    rw [show (c.awaiting node opens deadline observed).window = some _ from rfl,
      Option.filter_some, if_pos (beq_self_eq_true node.id)]
  unfold resolve
  rw [hwindow]
  dsimp only
  rw [hv]
  cases answer with
  | none => exact .waits (.inl rfl) hc
  | some branch =>
    obtain ⟨next, hnext⟩ :=
      Graph.next?_of_condition hn ha (Verdict.branch?_ne_next (branch?_of_decisive hv))
    obtain rfl : (c.awaiting node opens deadline observed).key = key :=
      CursorStore.key_eq_of_find? hc
    have hadvance : (advance g (c.awaiting node opens deadline observed) node branch branch.name
        now).on w = (.ok .moved, w.storeCursor (c.awaiting node opens deadline observed)
          (c.answered node opens branch now next)) := by
      unfold advance
      rw [hnext]
      exact on_bind_ok (discard_ok (move_ok _ hc (Graph.id_of_node? hn).symm rfl))
    dsimp only
    rw [on_bind_ok hadvance]
    exact .leaves hnext (World.find?_storeCursor_self hc rfl)

end Change

/-! ## One trigger -/

namespace Engine

variable {σ : Type} {svc : Services σ} {g : Graph} {key : CursorKey} {node : Node} {k : Condition}
  {c : Cursor} {s : Session σ} {trigger : Trigger} {now opens deadline : Instant}
  {observed : List Observation}

/-- Only coming to a step runs it: a cursor that has just come there is left alone by the rest. -/
theorem perform_entering (he : c.state.entering = true) (ht : trigger.cause ≠ .enter) :
    perform svc g c node trigger now = pure .ignored := by
  have hdelay : c.state ≠ .waitingDelay := by rintro hs; rw [hs] at he; cases he
  have hcondition : c.state ≠ .waitingCondition := by rintro hs; rw [hs] at he; cases he
  unfold perform
  cases node.action <;> cases trigger <;> first | exact absurd rfl ht | simp [hdelay, hcondition]

/-- Running the step of a running cursor that is at it. -/
theorem on_execute (hc : s.world.cursors.find? key = some c) (hr : c.state.terminal = false)
    (hn : g.node? c.nodeId = some node) :
    (execute svc g key trigger now).on s =
      (ignoreClash (perform svc g c node trigger now)).on s := by
  unfold execute
  rw [on_bind_ok (on_cursor_some hc), hr, if_neg Bool.false_ne_true, hn]

/-- An event that a condition does not listen for is passed over. -/
theorem observe_unheard {e : Engagement} (h : ¬ k.Hears c.campaignId e) :
    Change.observe g c node k e now = pure .ignored := by
  unfold Change.observe
  rw [if_pos]
  by_cases hcampaign : e.campaignId = c.campaignId
  · have hdeaf : k.watch.covers e.kind = false := Bool.eq_false_iff.2 fun hk => h ⟨hcampaign, hk⟩
    simp [hdeaf]
  · simp [hcampaign]

/-- An event that a condition listens for is noted before it may lead on. -/
theorem observe_heard {e : Engagement} (h : k.Hears c.campaignId e) {win : Window} {w : World}
    (hc : w.cursors.find? c.key = some c) (hs : c.state = .waitingCondition)
    (hw : c.window = some win) (hn : win.nodeId = node.id) :
    (Change.observe g c node k e now).on w =
      (Change.resolve g { c with window := some (Change.withEvent e now win) } node k .event now).on
        (w.storeCursor c { c with window := some (Change.withEvent e now win) }) := by
  unfold Change.observe
  rw [if_neg (by simp [h.1, h.2]), Change.on_bind_ok (Change.on_cursor_some hc)]
  have hobserved : Change.observed e node now c =
      some { c with window := some (Change.withEvent e now win) } := by
    unfold Change.observed
    rw [hw]
    exact if_pos ⟨hs, hn⟩
  rw [hobserved]
  exact Change.on_bind_ok (Change.on_apply _ _)

/-- A trigger makes of a waiting cursor what the rule says. -/
theorem perform_ruled (hc : s.world.cursors.find? key = some (c.awaiting node opens deadline observed))
    (hn : g.node? c.nodeId = some node) (ha : node.action = .condition k)
    (ht : trigger.cause ≠ .enter) (ho : opens ≤ deadline) (hnow : opens ≤ now)
    (hlate : ∀ o ∈ observed, ¬ o.time ≤ deadline) :
    c.Ruled g key node opens deadline
      (observed ++ (k.noted c.campaignId opens trigger now).toList) now
      (k.answer c.campaignId deadline trigger now)
      ((perform svc g (c.awaiting node opens deadline observed) node trigger now).on s).1
      ((perform svc g (c.awaiting node opens deadline observed) node trigger now).on s).2.world := by
  obtain rfl : (c.awaiting node opens deadline observed).key = key :=
    CursorStore.key_eq_of_find? hc
  have hwaits : (c.awaiting node opens deadline observed).state = .waitingCondition := rfl
  unfold perform
  rw [ha]
  cases trigger with
  | enter => exact absurd rfl ht
  | timer =>
    rw [show k.noted c.campaignId opens .timer now = none from rfl, Option.toList_none,
      List.append_nil]
    exact Change.resolve_ruled hn ha hc (Condition.decisive_timed hlate .timer nofun)
  | event e =>
    by_cases hears : k.Hears (c.awaiting node opens deadline observed).campaignId e
    · have hnoted : k.noted c.campaignId opens (.event e) now =
          some ⟨e.kind, (e.time.earlier now).later opens⟩ := if_pos hears
      rw [hnoted]
      have hobserve : (Change.observe g (c.awaiting node opens deadline observed) node k e now).on
          s.world = (Change.resolve g (c.awaiting node opens deadline _) node k .event now).on _ :=
        observe_heard hears hc rfl rfl rfl
      dsimp only
      rw [if_pos hwaits, on_lift, hobserve]
      exact Change.resolve_ruled hn ha (World.find?_storeCursor_self hc rfl)
        (Condition.decisive_event hlate hears ho hnow)
    · have hanswer : k.answer c.campaignId deadline (.event e) now = none :=
        if_neg fun h => hears h.1
      have hnoted : k.noted c.campaignId opens (.event e) now = none := if_neg hears
      rw [hanswer, hnoted, Option.toList_none, List.append_nil]
      dsimp only
      rw [if_pos hwaits, observe_unheard hears]
      exact .waits (.inr rfl) hc

/-- What runs a step without a clash is what the step does. -/
theorem execute_ruled {d : Cursor} {answer : Option Branch}
    (hc : s.world.cursors.find? key = some d) (hr : d.state.terminal = false)
    (hn : g.node? d.nodeId = some node)
    (h : c.Ruled g key node opens deadline observed now answer
      ((perform svc g d node trigger now).on s).1
      ((perform svc g d node trigger now).on s).2.world) :
    ∃ o t, (execute svc g key trigger now).on s = (.ok o, t) ∧
      c.Ruled g key node opens deadline observed now answer (.ok o) t.world := by
  rw [on_execute hc hr hn, on_ignoreClash]
  rcases hp : (perform svc g d node trigger now).on s with ⟨r, t⟩
  rw [hp] at h
  cases h with
  | waits ho ht => exact ⟨_, t, rfl, .waits ho ht⟩
  | leaves hnext ht => exact ⟨_, t, rfl, .leaves hnext ht⟩

/-- A cursor that comes to a condition waits there, or leaves it at once when the window is empty. -/
theorem enter_ruled (svc : Services σ) (hc : s.world.cursors.find? key = some c) (hn : g.node? c.nodeId = some node)
    (ha : node.action = .condition k) (he : c.state.entering = true)
    (hd : opens.add? k.wait.span = some deadline) :
    ∃ o t, (execute svc g key .enter opens).on s = (.ok o, t) ∧
      c.Ruled g key node opens deadline [] opens (k.answer c.campaignId deadline .enter opens)
        (.ok o) t.world := by
  obtain rfl := CursorStore.key_eq_of_find? hc
  refine execute_ruled hc (CursorState.terminal_of_entering he) hn ?_
  unfold perform
  rw [ha]
  dsimp only
  have hafter : (Change.after opens k.wait.span).on s.world = (.ok deadline, s.world) := by
    unfold Change.after
    rw [hd, Change.on_need_some]
  have hmove : (Change.move c.key node .waitingCondition "condition_entered" opens fun c =>
      { c with nextRun := some deadline, window := some ⟨node.id, opens, deadline, []⟩ }).on
        s.world = (.ok (c.awaiting node opens deadline []), s.world.storeCursor c _) :=
    Change.move_ok _ hc (Graph.id_of_node? hn).symm (Change.mayBecome_of_entering he nofun)
  rw [if_pos he, on_lift, Change.enterCondition, Change.on_bind_ok hafter, Change.on_bind_ok hmove]
  exact Change.resolve_ruled hn ha (World.find?_storeCursor_self hc rfl)
    (Condition.decisive_timed (fun o ho => absurd ho List.not_mem_nil) .enter nofun)

/-- A trigger makes of a waiting cursor what the rule says. -/
theorem execute_awaiting (svc : Services σ)
    (hc : s.world.cursors.find? key = some (c.awaiting node opens deadline observed))
    (hn : g.node? c.nodeId = some node) (ha : node.action = .condition k)
    (ht : trigger.cause ≠ .enter) (ho : opens ≤ deadline) (hnow : opens ≤ now)
    (hlate : ∀ o ∈ observed, ¬ o.time ≤ deadline) :
    ∃ o t, (execute svc g key trigger now).on s = (.ok o, t) ∧
      c.Ruled g key node opens deadline
        (observed ++ (k.noted c.campaignId opens trigger now).toList) now
        (k.answer c.campaignId deadline trigger now) (.ok o) t.world :=
  execute_ruled hc rfl hn (perform_ruled hc hn ha ht ho hnow hlate)

end Engine

end MailCampaign
