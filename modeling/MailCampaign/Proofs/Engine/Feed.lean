import MailCampaign.Proofs.Engine.Rounds
import MailCampaign.Proofs.Engine.Window

/-!
# Feeding a condition

The window rule for any sequence of triggers. A cursor that comes to a condition is fed timers and
events at any instants from then on. What does not answer the condition leaves the cursor waiting, by
one induction on the sequence; the first answer makes it leave; and what comes after that finds it
entering the next step and changes nothing (`Engine.feed_window`).
-/

namespace MailCampaign

/-- The instant at which a waiting time ends is not before its start. -/
theorem Wait.le_add? {w : Wait} {t u : Instant} (h : t.add? w.span = some u) : t ≤ u := by
  cases hz : w.isZero with
  | true =>
    have hzero : w.span.nanos = 0 := by
      have hamount : w.amount = 0 := beq_iff_eq.1 hz
      simp [Wait.span, Span.ofSeconds, hamount]
    rw [Instant.add?_of_zero hzero] at h
    exact Option.some.inj h ▸ Int.le_refl _
  | false => exact Int.le_of_lt (Instant.lt_add? (Wait.span_pos hz) h)

namespace Engine

variable {σ : Type}

/-- Executes the step of a cursor for one trigger after another and collects the outcomes. -/
def feed (svc : Services σ) (g : Graph) (key : CursorKey) :
    List (Trigger × Instant) → Engine σ (List Outcome)
  | [] => return []
  | x :: rest => do
    let outcome ← execute svc g key x.1 x.2
    let others ← feed svc g key rest
    return outcome :: others

variable {svc : Services σ} {g : Graph} {key : CursorKey} {node : Node} {k : Condition}
  {c : Cursor} {s t u : Session σ} {opens deadline : Instant} {observed : List Observation}
  {x : Trigger × Instant} {l l' : List (Trigger × Instant)}

theorem on_feed_cons {trigger : Trigger} {now : Instant} {o : Outcome} {outcomes : List Outcome}
    (h : (execute svc g key trigger now).on s = (.ok o, t))
    (h' : (feed svc g key l).on t = (.ok outcomes, u)) :
    (feed svc g key ((trigger, now) :: l)).on s = (.ok (o :: outcomes), u) := by
  unfold feed
  rw [on_bind_ok h, on_bind_ok h', on_pure]

/-- Triggers other than coming to the step leave a cursor alone that has just come there. -/
theorem on_feed_entering (hc : s.world.cursors.find? key = some c)
    (hn : g.node? c.nodeId = some node) (he : c.state.entering = true)
    (hl : ∀ x ∈ l, x.1.cause ≠ .enter) :
    (feed svc g key l).on s = (.ok (List.replicate l.length .ignored), s) := by
  induction l with
  | nil => rfl
  | cons x l ih =>
    have hignored : (execute svc g key x.1 x.2).on s = (.ok .ignored, s) := by
      rw [on_execute hc (CursorState.terminal_of_entering he) hn, on_ignoreClash,
        perform_entering he (hl x List.mem_cons_self), on_pure]
    exact on_feed_cons hignored (ih fun y hy => hl y (List.mem_cons_of_mem _ hy))

/-- Triggers that do not answer its condition leave a cursor waiting, whatever comes after them. -/
theorem on_feed_unanswered (svc : Services σ)
    (hc : s.world.cursors.find? key = some (c.awaiting node opens deadline observed))
    (hn : g.node? c.nodeId = some node) (ha : node.action = .condition k) (ho : opens ≤ deadline)
    (hlate : ∀ o ∈ observed, ¬ o.time ≤ deadline)
    (hl : ∀ x ∈ l, x.1.cause ≠ .enter ∧ opens ≤ x.2 ∧
      k.answer c.campaignId deadline x.1 x.2 = none) :
    ∃ outcomes t late, outcomes.length = l.length ∧ (∀ o ∈ outcomes, o = .parked ∨ o = .ignored) ∧
      (∀ rest outcomes' u, (feed svc g key rest).on t = (.ok outcomes', u) →
        (feed svc g key (l ++ rest)).on s = (.ok (outcomes ++ outcomes'), u)) ∧
      late = observed ++ (l.filterMap fun x => k.noted c.campaignId opens x.1 x.2) ∧
      t.world.cursors.find? key = some (c.awaiting node opens deadline late) ∧
      ∀ o ∈ late, ¬ o.time ≤ deadline := by
  -- What has been noted so far lies after the deadline, so it never answers later.
  induction l generalizing s observed with
  | nil =>
    exact ⟨[], s, observed, rfl, fun o ho => absurd ho List.not_mem_nil, fun _ _ _ h => h,
      (List.append_nil _).symm, hc, hlate⟩
  | cons x l ih =>
    obtain ⟨hcause, hnow, hanswer⟩ := hl x List.mem_cons_self
    obtain ⟨o, t, hon, hruled⟩ := execute_awaiting svc hc hn ha hcause ho hnow hlate
    rw [hanswer] at hruled
    cases hruled with
    | waits hwaits ht =>
      have hlate' : ∀ o ∈ observed ++ (k.noted c.campaignId opens x.1 x.2).toList,
          ¬ o.time ≤ deadline := by
        intro o hmem
        rcases List.mem_append.1 hmem with hmem | hmem
        · exact hlate o hmem
        · exact Condition.late_of_noted hanswer (Option.mem_toList.1 hmem)
      obtain ⟨outcomes, u, late, hlen, houtcomes, hfeed, hobserved, hu, hend⟩ :=
        ih ht hlate' fun y hy => hl y (List.mem_cons_of_mem _ hy)
      refine ⟨o :: outcomes, u, late, congrArg (· + 1) hlen,
        List.forall_mem_cons.2 ⟨hwaits, houtcomes⟩,
        fun rest outcomes' v h => on_feed_cons hon (hfeed rest outcomes' v h), ?_, hu, hend⟩
      rw [hobserved, List.append_assoc]
      cases hx : k.noted c.campaignId opens x.1 x.2 <;> simp [hx]

/-- The answer of a condition makes its cursor leave, and what comes after that changes nothing. -/
theorem on_feed_answered {trigger : Trigger} {now : Instant} {o : Outcome} {branch : Branch}
    (hon : (execute svc g key trigger now).on s = (.ok o, t))
    (hruled : c.Ruled g key node opens deadline observed now (some branch) (.ok o) t.world)
    (hl : ∀ y ∈ l, y.1.cause ≠ .enter) :
    ∃ next, g.next? node.id branch = some next ∧
      t.world.cursors.find? key = some (c.answered node opens branch now next) ∧
      (feed svc g key [(trigger, now)]).on s = (.ok [.moved], t) ∧
      (feed svc g key ((trigger, now) :: l)).on s =
        (.ok (.moved :: List.replicate l.length .ignored), t) := by
  cases hruled with
  | leaves hnext ht =>
    exact ⟨_, hnext, ht, on_feed_cons hon rfl,
      on_feed_cons hon (on_feed_entering ht (Graph.node?_of_next? hnext) rfl hl)⟩

/-- **The window rule.** A cursor comes to a condition and is then fed any timers and events.

1. As long as nothing answers the condition, it waits with the same window and deadline, in which the
   events that the condition listens for are noted.
2. At the first answer, which coming to the condition may be, it leaves on the branch of that answer,
   and nothing that comes later changes anything. -/
theorem feed_window (svc : Services σ) (g : Graph) {l : List (Trigger × Instant)}
    (hc : s.world.cursors.find? key = some c) (hn : g.node? c.nodeId = some node)
    (ha : node.action = .condition k) (he : c.state.entering = true)
    (hd : opens.add? k.wait.span = some deadline)
    (hl : ∀ x ∈ l, x.1.cause ≠ .enter ∧ opens ≤ x.2) :
    ((∀ x ∈ (.enter, opens) :: l, k.answer c.campaignId deadline x.1 x.2 = none) →
      ∃ outcomes t, (feed svc g key ((.enter, opens) :: l)).on s = (.ok outcomes, t) ∧
        (∀ o ∈ outcomes, o = .parked ∨ o = .ignored) ∧
        t.world.cursors.find? key = some (c.awaiting node opens deadline
          (l.filterMap fun x => k.noted c.campaignId opens x.1 x.2))) ∧
      ∀ before x after branch, (.enter, opens) :: l = before ++ x :: after →
        (∀ y ∈ before, k.answer c.campaignId deadline y.1 y.2 = none) →
        k.answer c.campaignId deadline x.1 x.2 = some branch →
          ∃ outcomes t next, outcomes.length = before.length ∧
            (∀ o ∈ outcomes, o = .parked ∨ o = .ignored) ∧
            g.next? node.id branch = some next ∧
            t.world.cursors.find? key = some (c.answered node opens branch x.2 next) ∧
            (feed svc g key (before ++ [x])).on s = (.ok (outcomes ++ [.moved]), t) ∧
            (feed svc g key ((.enter, opens) :: l)).on s =
              (.ok (outcomes ++ .moved :: List.replicate after.length .ignored), t) := by
  have ho : opens ≤ deadline := Wait.le_add? hd
  have hempty : ∀ o ∈ ([] : List Observation), ¬ o.time ≤ deadline :=
    fun o ho => absurd ho List.not_mem_nil
  -- Coming to the condition is the first trigger: it may be the answer, as it is without a wait.
  obtain ⟨o, t, hon, hruled⟩ := enter_ruled svc hc hn ha he hd
  constructor
  · intro hnone
    rw [hnone _ List.mem_cons_self] at hruled
    cases hruled with
    | waits hwaits ht =>
      obtain ⟨outcomes, u, late, -, houtcomes, hfeed, rfl, hu, -⟩ :=
        on_feed_unanswered svc (l := l) ht hn ha ho hempty fun y hy =>
          ⟨(hl y hy).1, (hl y hy).2, hnone y (List.mem_cons_of_mem _ hy)⟩
      have hall := hfeed [] [] u rfl
      rw [List.append_nil, List.append_nil] at hall
      exact ⟨o :: outcomes, u, on_feed_cons hon hall,
        List.forall_mem_cons.2 ⟨hwaits, houtcomes⟩, hu⟩
  · rintro before ⟨trigger, now⟩ after branch hsplit hbefore hanswer
    cases before with
    | nil =>
      obtain ⟨hx, rfl⟩ := List.cons.inj hsplit
      obtain ⟨rfl, rfl⟩ := Prod.mk.inj hx
      rw [hanswer] at hruled
      obtain ⟨next, hnext, ht, hone, hall⟩ := on_feed_answered hon hruled fun y hy => (hl y hy).1
      exact ⟨[], t, next, rfl, fun o ho => absurd ho List.not_mem_nil, hnext, ht, hone, hall⟩
    | cons y before =>
      obtain ⟨rfl, rfl⟩ := List.cons.inj hsplit
      rw [hbefore _ List.mem_cons_self] at hruled
      cases hruled with
      | waits hwaits ht =>
        obtain ⟨outcomes, u, late, hlen, houtcomes, hfeed, -, hu, hlate⟩ :=
          on_feed_unanswered svc (l := before) ht hn ha ho hempty fun y hy =>
            ⟨(hl y (List.mem_append_left _ hy)).1, (hl y (List.mem_append_left _ hy)).2,
              hbefore y (List.mem_cons_of_mem _ hy)⟩
        obtain ⟨hcause, hnow⟩ := hl _ (List.mem_append_right _ List.mem_cons_self)
        obtain ⟨o', v, hon', hruled'⟩ := execute_awaiting svc hu hn ha hcause ho hnow hlate
        rw [hanswer] at hruled'
        obtain ⟨next, hnext, hv, hone, hall⟩ := on_feed_answered hon' hruled' fun y hy =>
          (hl y (List.mem_append_right _ (List.mem_cons_of_mem _ hy))).1
        exact ⟨o :: outcomes, v, next, congrArg (· + 1) hlen,
          List.forall_mem_cons.2 ⟨hwaits, houtcomes⟩, hnext, hv,
          on_feed_cons hon (hfeed _ _ v hone), on_feed_cons hon (hfeed _ _ v hall)⟩

end Engine

/-- A lead that has just come to a condition. -/
def Session.arrived : Session Nat :=
  ((Engine.dispatchOnce .plain ⟨.ofNat 0, "ada"⟩ .enter .epoch).on .newcomer).2

/-- An event of that lead. -/
def Engagement.ofAda (kind : EngagementKind) : Engagement :=
  ⟨"ada", .ofNat 7, kind, .epoch, kind.name, {}⟩

namespace Engine

/-- The lead opens the mail, which the condition does not listen for, and replies, and then the timer
is too late. -/
theorem feed_window_arrived :
    ∃ g, Session.arrived.world.flows.find? (.ofNat 0) = some g ∧
      ∃ outcomes t next, outcomes.length = 2 ∧ (∀ o ∈ outcomes, o = .parked ∨ o = .ignored) ∧
        g.next? "replied" .yes = some next ∧
        (t.world.cursors.find? ⟨.ofNat 0, "ada"⟩).map Cursor.nodeId = some next.id ∧
        (feed .plain g ⟨.ofNat 0, "ada"⟩ [(.enter, .epoch), (.event (.ofAda .opened), .epoch),
          (.event (.ofAda .replied), .epoch), (.timer, .epoch)]).on .arrived =
            (.ok (outcomes ++ [.moved, .ignored]), t) := by
  have hflow : (Session.arrived.world.flows.find? (.ofNat 0)).map (·.definition.document) =
      some .followUp := by decide +kernel
  obtain ⟨g, hg, hdoc⟩ := Option.map_eq_some_iff.1 hflow
  have hcursor : (Session.arrived.world.cursors.find? ⟨.ofNat 0, "ada"⟩).map
      (fun c => (c.nodeId, c.state, c.campaignId)) = some ("replied", .active, .ofNat 7) := by
    decide +kernel
  obtain ⟨c, hc, hfields⟩ := Option.map_eq_some_iff.1 hcursor
  obtain ⟨hid, hfields⟩ := Prod.mk.inj hfields
  obtain ⟨hstate, hcampaign⟩ := Prod.mk.inj hfields
  have hnode : g.node? c.nodeId =
      some ⟨"replied", .condition ⟨{ replied := true }, .anyOf, ⟨2, .days⟩⟩⟩ := by
    unfold Graph.node?
    rw [hdoc, hid]
    decide
  have hdeadline : Instant.epoch.add? (⟨2, .days⟩ : Wait).span = some .secondDay := by
    decide +kernel
  have hlater : ∀ x ∈ [(Trigger.event (.ofAda .opened), Instant.epoch),
      (.event (.ofAda .replied), .epoch), (.timer, .epoch)], x.1.cause ≠ .enter ∧ .epoch ≤ x.2 := by
    decide
  have hrule := (feed_window .plain g hc hnode rfl (by rw [hstate]; rfl) hdeadline hlater).2
    [(.enter, .epoch), (.event (.ofAda .opened), .epoch)] _ _ .yes rfl
  rw [hcampaign] at hrule
  obtain ⟨outcomes, t, next, hlen, houtcomes, hnext, ht, -, hfeed⟩ :=
    hrule (by decide +kernel) (by decide +kernel)
  exact ⟨g, hg, outcomes, t, next, hlen, houtcomes, hnext, by rw [ht]; rfl, hfeed⟩

end Engine

end MailCampaign
