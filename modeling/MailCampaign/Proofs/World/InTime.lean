import MailCampaign.Instant.Calendar
import MailCampaign.Proofs.World.Posted

/-!
# Changes that stay in the range of time

Instants end with the year 262142, and a waiting time is any 32-bit number of hours or days, so a
waiting time may lead out of range. One that is short enough does not, from any instant up to the
end of the year 2200 (`Wait.bounded_iff`). In a world in which all flows have such waiting times
alone, and under the settings by default, no change comes upon a time out of range.
-/

namespace MailCampaign

/-! ## Instants and waiting times -/

/-- The first second of the year 2201. -/
def horizon : Int := (Date.mk 2201 1 1).toDays * 86400

/-- An instant of the years 1970 to 2200. -/
def Instant.Near (t : Instant) : Prop := 0 ≤ t.seconds ∧ t.seconds < horizon

instance (t : Instant) : Decidable t.Near := inferInstanceAs (Decidable (_ ∧ _))

/-- A span forwards that ends in range when it starts at the horizon. -/
def Span.Bounded (d : Span) : Prop :=
  0 ≤ d.nanos ∧ horizon * 1000000000 + d.nanos ≤ (lastSecond + 1) * 1000000000

instance (d : Span) : Decidable d.Bounded := inferInstanceAs (Decidable (_ ∧ _))

theorem Span.Bounded.add? {d : Span} (h : d.Bounded) {t : Instant} (ht : t.Near) :
    ∃ u, t.add? d = some u := by
  obtain ⟨hd, hend⟩ := h
  obtain ⟨hzero, hhorizon⟩ := ht
  have hfirst : firstSecond ≤ 0 := by decide
  have hnanos := t.nanos_lt
  have hlast := t.inRange.2
  have hfrom : ∀ nanos : Int, 0 ≤ nanos → nanos < 1000000000 + d.nanos →
      ∃ u, Instant.fromSecond? t.seconds nanos = some u := fun nanos hn hlt =>
    ⟨_, dif_pos ⟨⟨by omega, by omega, by omega⟩, fun hleap => absurd hleap (by omega)⟩⟩
  unfold Instant.add?
  split
  · next hn => exact hfrom _ (by omega) (by omega)
  split
  · next hn hstays => exact ⟨_, dif_pos ⟨⟨by omega, by omega, hlast⟩, fun _ => t.leap (by omega)⟩⟩
  · rw [if_neg (by omega)]
    exact hfrom _ (by omega) (by omega)

/-- The last second of the year 2200. -/
def Instant.lastNear : Instant :=
  { Instant.epoch with seconds := horizon - 1, inRange := by decide, leap := by decide }

/-- A waiting time that ends in range when it starts at the horizon. -/
def Wait.Bounded (w : Wait) : Prop := w.span.Bounded

instance (w : Wait) : Decidable w.Bounded := inferInstanceAs (Decidable w.span.Bounded)

/-- The bound is sharp: the waiting times within it are those that end in range from every instant
up to the end of the year 2200. -/
theorem Wait.bounded_iff {w : Wait} :
    w.Bounded ↔ ∀ t : Instant, t.Near → ∃ u, t.add? w.span = some u := by
  have hwhole : w.span.nanos = (w.amount.toNat * w.unit.seconds : Nat) * 1000000000 := rfl
  refine ⟨fun h t ht => h.add? ht, fun h => ⟨by omega, ?_⟩⟩
  obtain ⟨u, hu⟩ := h .lastNear (by decide)
  unfold Instant.add? at hu
  rw [if_pos (by decide)] at hu
  obtain ⟨hseconds, -⟩ := Instant.fromSecond?_eq_some hu
  have hstart : Instant.lastNear.seconds = horizon - 1 ∧ Instant.lastNear.nanos = 0 := ⟨rfl, rfl⟩
  have hlast := u.inRange.2
  omega

/-- The waiting time of a step. -/
def Action.wait? : Action → Option Wait
  | .condition k => some k.wait
  | .delay wait => some wait
  | _ => none

/-- A flow with bounded waiting times. -/
def Document.Bounded (d : Document) : Prop :=
  ∀ n ∈ d.nodes, ∀ w ∈ n.action.wait?, w.Bounded

instance (d : Document) : Decidable d.Bounded :=
  inferInstanceAs (Decidable (∀ n ∈ d.nodes, ∀ w ∈ n.action.wait?, w.Bounded))

/-- The delays of a policy are bounded. -/
def RetryPolicy.Bounded (policy : RetryPolicy) : Prop := ∀ attempt, (policy.backoff attempt).Bounded

theorem Span.Bounded.shorter {a b : Span} (ha : 0 ≤ a.nanos) (hb : b.Bounded) :
    (a.shorter b).Bounded := by
  unfold Span.shorter
  split
  · next hle =>
    have hle : a.nanos ≤ b.nanos := hle
    exact ⟨ha, Int.le_trans (Int.add_le_add_left hle _) hb.2⟩
  · exact hb

theorem Span.times?_nonneg {a b : Span} {n : Nat} (ha : 0 ≤ a.nanos) (h : a.times? n = some b) :
    0 ≤ b.nanos := by
  unfold Span.times? at h
  split at h
  · obtain rfl := Option.some.inj h
    exact Int.mul_nonneg ha (Int.natCast_nonneg n)
  · cases h

/-- A policy whose first delay leads forwards and whose longest one is bounded. -/
theorem RetryPolicy.Bounded.of_longest {policy : RetryPolicy} (hbase : 0 ≤ policy.base.nanos)
    (hlongest : policy.longest.Bounded) : policy.Bounded := by
  intro attempt
  refine Span.Bounded.shorter ?_ hlongest
  cases ht : policy.base.times? (1 <<< doublings attempt : Nat) with
  | none => exact hlongest.1
  | some b => exact Span.times?_nonneg hbase ht

/-- By default a mail is tried again within an hour. -/
theorem RetryPolicy.bounded_default {policy : RetryPolicy}
    (h : RetryPolicy.ofSettings? {} = some policy) : policy.Bounded := by
  have hpolicy : RetryPolicy.ofSettings? {} =
      some ⟨5, .ofSeconds 60 (by decide), .ofSeconds 3600 (by decide)⟩ := rfl
  obtain rfl := Option.some.inj (hpolicy.symm.trans h)
  exact .of_longest (by decide) (by decide)

/-! ## Changes -/

/-- A world whose flows have bounded waiting times. -/
def World.Bounded (w : World) : Prop :=
  ∀ id g, w.flows.find? id = some g → g.definition.document.Bounded

theorem World.Bounded.of_flows {w v : World} (h : w.Bounded) (hv : v.flows = w.flows) :
    v.Bounded := by
  unfold World.Bounded
  rw [hv]
  exact h

namespace Change

/-- A change that comes upon no time out of range in a bounded world, and leaves it bounded. -/
def InTime {α : Type} (c : Change α) : Prop :=
  ∀ w : World, w.Bounded → (c.on w).1 ≠ .error .outOfRange ∧ (c.on w).2.Bounded

variable {α β : Type} {key : CursorKey} {node : Node} {c : Cursor} {g : Graph} {now : Instant}

namespace InTime

theorem pure (a : α) : (pure a : Change α).InTime := fun _ hw => ⟨nofun, hw⟩

theorem throw {x : Fault} (hx : x ≠ .outOfRange) : (throw x : Change α).InTime :=
  fun _ hw => ⟨fun h => hx (Except.error.inj h), hw⟩

theorem apply {f : World → World} (hf : ∀ w : World, (f w).flows = w.flows) :
    (Change.apply f).InTime := fun w hw => ⟨nofun, hw.of_flows (hf w)⟩

theorem need {x : Fault} (hx : x ≠ .outOfRange) (o : Option α) : (need x o).InTime := by
  cases o with
  | none => exact throw hx
  | some a => exact pure a

/-- A time that is there. -/
theorem needed {o : Option α} (h : ∃ a, o = some a) (x : Fault) : (Change.need x o).InTime := by
  obtain ⟨a, rfl⟩ := h
  exact pure a

theorem get {f : World → Change α}
    (hf : ∀ w : World, w.Bounded → ((f w).on w).1 ≠ .error .outOfRange ∧ ((f w).on w).2.Bounded) :
    (MonadState.get >>= f : Change α).InTime := by
  intro w hw
  rw [on_bind_ok (on_get w)]
  exact hf w hw

theorem bind {d : Change α} {f : α → Change β} (hd : d.InTime) (hf : ∀ a, (f a).InTime) :
    (d >>= f).InTime := by
  intro w hw
  have hdw := hd w hw
  rw [on_bind]
  rcases hr : d.on w with ⟨x | a, v⟩ <;> rw [hr] at hdw
  · exact ⟨fun h => hdw.1 (by rw [Except.error.inj h]), hdw.2⟩
  · exact hf a v hdw.2

theorem discard {d : Change α} (hd : d.InTime) : (discard d).InTime := hd.bind fun _ => pure _

theorem cursor (key : CursorKey) : (Change.cursor key).InTime :=
  get fun w => need (by nofun) (w.cursors.find? key) w

end InTime

/-! ## Moves -/

theorem report_inTime {milestone : Milestone} {nodeId : String} :
    (apply (·.report c milestone nodeId now)).InTime := .apply fun _ => rfl

theorem storeCursor_inTime (old new : Cursor) : (apply (·.storeCursor old new)).InTime :=
  .apply fun _ => rfl

theorem revise_inTime {f : Cursor → Except Fault Cursor} (hf : ∀ c, f c ≠ .error .outOfRange) :
    (revise key f).InTime := by
  refine (InTime.cursor key).bind fun c => ?_
  cases hc : f c with
  | ok new => exact (storeCursor_inTime c new).bind fun _ => .pure _
  | error x =>
    exact (storeCursor_inTime c c).bind fun _ => .throw fun hx => hf c (by rw [hc, hx])

theorem permit_ne {state : CursorState} {new : Cursor} :
    permit c state new ≠ .error .outOfRange := by
  unfold permit
  split <;> exact fun h => nomatch h

theorem move_inTime {state : CursorState} {outcome : String} {f : Cursor → Cursor} :
    (move key node state outcome now f).InTime := by
  refine revise_inTime fun c => ?_
  split
  · exact fun h => nomatch h
  · exact permit_ne

theorem flows_countOutcome (w : World) (campaign : Uuid) (state : CursorState) :
    (w.countOutcome campaign state).flows = w.flows :=
  (World.booked_countOutcome w campaign state).flows

theorem finish_inTime {nodeId : String} {state : CursorState} {milestone : Milestone} :
    (finish c nodeId state milestone now).InTime := by
  refine InTime.bind (.apply fun w => ?_) fun _ => .pure _
  exact flows_countOutcome w c.campaignId state

theorem fail_inTime {reason : String} : (fail key reason now).InTime :=
  (revise_inTime fun _ => permit_ne).bind fun _ => finish_inTime

theorem cancel_inTime {reason : String} : (cancel key reason now).InTime := by
  refine (InTime.cursor key).bind fun c => ?_
  split
  · exact (storeCursor_inTime c c).bind fun _ => .pure _
  · exact (storeCursor_inTime c _).bind fun _ => finish_inTime.discard.bind fun _ => .pure _

theorem cancelAll_inTime {reason : String} (keys : List CursorKey) :
    (cancelAll reason now keys).InTime := by
  induction keys with
  | nil => exact .pure _
  | cons key rest ih => exact cancel_inTime.bind fun _ => ih.bind fun _ => .pure _

theorem advance_inTime {branch : Branch} {outcome : String} :
    (advance g c node branch outcome now).InTime := by
  unfold advance
  split
  · exact move_inTime.discard.bind fun _ => .pure _
  · exact move_inTime.discard.bind fun _ => finish_inTime

theorem after_inTime {d : Span} (hd : d.Bounded) (hnow : now.Near) : (after now d).InTime :=
  .needed (hd.add? hnow) _

theorem scheduleDelay_inTime {wait : Wait} (hwait : wait.Bounded) (hnow : now.Near) :
    (scheduleDelay c node wait now).InTime :=
  (after_inTime hwait hnow).bind fun _ => move_inTime.discard.bind fun _ =>
    report_inTime.bind fun _ => .pure _

theorem reachGoal_inTime : (reachGoal c node now).InTime :=
  move_inTime.discard.bind fun _ => finish_inTime

theorem resolve_inTime {k : Condition} {cause : Cause} : (resolve g c node k cause now).InTime := by
  unfold resolve
  split
  · exact .pure _
  · split
    · exact .pure _
    · exact advance_inTime.bind fun _ => report_inTime.bind fun _ => .pure _

theorem enterCondition_inTime {k : Condition} (hwait : k.wait.Bounded) (hnow : now.Near) :
    (enterCondition g c node k now).InTime :=
  (after_inTime hwait hnow).bind fun _ => move_inTime.bind fun _ => resolve_inTime

theorem observe_inTime {k : Condition} {e : Engagement} : (observe g c node k e now).InTime := by
  unfold observe
  split
  · exact .pure _
  · refine (InTime.cursor c.key).bind fun stored => ?_
    cases observed e node now stored with
    | none => exact (storeCursor_inTime stored stored).bind fun _ => .pure _
    | some new => exact (storeCursor_inTime stored new).bind fun _ => resolve_inTime

theorem flows_count (w : World) (e : Engagement) (only : Option CursorKey) (received : Instant) :
    (w.count e only received).flows = w.flows := by
  unfold World.count
  cases hv : w.countTotals e received with
  | none => rfl
  | some v =>
    obtain ⟨s, -, rfl⟩ := Option.map_eq_some_iff.1 hv
    dsimp only
    refine List.foldlRecOn (motive := fun v : World => v.flows = w.flows) _ _ rfl ?_
    intro v hv key _
    unfold World.countOnCursor
    split
    · exact hv
    · exact hv

theorem settleMail_inTime {policy : RetryPolicy} (hpolicy : policy.Bounded) (hnow : now.Near)
    (result : Except SendFault String) : (settleMail policy g c node now result).InTime := by
  rcases result with (reason | reason) | id
  · show (mailFailed policy c node reason now).InTime
    unfold mailFailed
    dsimp only
    split
    · exact fail_inTime
    · exact (after_inTime (hpolicy _) hnow).bind fun _ => move_inTime.discard.bind fun _ =>
        report_inTime.bind fun _ => .pure _
  · exact fail_inTime
  · refine InTime.bind (.apply fun w => ?_) fun _ => advance_inTime
    exact flows_count w (sentEvent c id now) (some c.key) now

/-! ## Control -/

theorem requireCampaign_inTime {campaign : Uuid} : (requireCampaign campaign).InTime := by
  intro w hw
  rw [on_requireCampaign]
  split
  · exact ⟨(fun h => by cases h), hw⟩
  · exact ⟨(fun h => by cases h), hw⟩

theorem setStatus_inTime {campaign : Uuid} {status : CampaignStatus} :
    (apply (·.setStatus campaign status)).InTime := .apply fun _ => rfl

theorem cancelRunning_inTime {campaign : Uuid} {reason : String} :
    (cancelRunning campaign reason now).InTime := .get fun w => cancelAll_inTime _ w

theorem pause_inTime {campaign : Uuid} : (pause campaign now).InTime := by
  refine requireCampaign_inTime.bind fun _ => .get fun w hw => ?_
  by_cases hs : w.status campaign = .canceled
  · rw [if_pos hs]
    exact ⟨nofun, hw⟩
  · rw [if_neg hs]
    exact (setStatus_inTime.bind fun _ => cancelRunning_inTime) w hw

theorem cancelCampaign_inTime {campaign : Uuid} : (cancelCampaign campaign now).InTime :=
  requireCampaign_inTime.bind fun _ => setStatus_inTime.bind fun _ => cancelRunning_inTime

theorem resume_inTime {campaign : Uuid} : (resume campaign).InTime := by
  refine requireCampaign_inTime.bind fun _ => .get fun w hw => ?_
  cases w.status campaign with
  | active => exact InTime.pure _ w hw
  | paused => exact setStatus_inTime w hw
  | canceled => exact InTime.throw (by nofun) w hw

/-- Activating a flow keeps the world bounded if the flow is. -/
theorem activate_inTime {campaign : Uuid} {document : Document} (hdoc : document.Bounded) :
    (activate campaign document now).InTime := by
  refine .get fun w hw => ?_
  by_cases hs : w.status campaign = .canceled
  · rw [if_pos hs]
    exact ⟨nofun, hw⟩
  · rw [if_neg hs]
    cases ha : w.flows.activate (Uuid.ofNat w.nextId) campaign document now with
    | error v => exact InTime.throw (by nofun) w hw
    | ok stored =>
      obtain ⟨flows, g⟩ := stored
      refine ⟨nofun, fun id g' hg' => ?_⟩
      have hfind := FlowStore.find?_activate ha id
      have hg' : flows.find? id = some g' := hg'
      rw [hg'] at hfind
      split at hfind
      · obtain rfl := Option.some.inj hfind
        rw [(Graph.compile_eq_ok_iff.1 (FlowStore.activate_eq_ok_iff.1 ha).1).1]
        exact hdoc
      · exact hw id g' hfind.symm

/-! ## Events and upkeep -/

theorem receive_inTime {e : Engagement} : (receive e now).InTime := by
  refine .get fun w hw => ?_
  cases w.seen.receive e.key now with
  | none => exact InTime.pure _ w hw
  | some seen => exact ⟨nofun, hw⟩

theorem settle_inTime {k : String} : (settle k).InTime := by
  refine .get fun w hw => ?_
  rcases w.seen.settle k with ⟨seen, first⟩
  cases first with
  | none => exact ⟨nofun, hw⟩
  | some time => exact ⟨nofun, hw⟩

theorem count_inTime {e : Engagement} : (apply (·.count e none now)).InTime :=
  .apply fun w => flows_count w e none now

theorem ingestHalting_inTime {e : Engagement} : (ingestHalting e now).InTime := by
  have hhalt : (haltLead e now).InTime :=
    .get fun w => ((cancelAll_inTime _).bind fun _ => .pure _) w
  refine receive_inTime.bind fun first => ?_
  cases first with
  | false => exact .pure _
  | true => exact count_inTime.bind fun _ => hhalt.bind fun _ => settle_inTime.bind fun _ => .pure _

/-- By default keys are kept for a week, which is in range. -/
theorem prune_inTime (hnow : now.Near) :
    (prune ({} : FlowSettings).idempotencyTtlHours now).InTime := by
  let week : Span := .ofSeconds 604800 (by decide)
  have hweek : Span.ofHours? ({} : FlowSettings).idempotencyTtlHours.toInt64.toInt = some week := rfl
  have hback : week.negate.nanos = -604800000000000 := rfl
  have hcutoff : ∃ cutoff, now.subtract? week = some cutoff := by
    have hfirst : firstSecond ≤ -604800 := by decide
    have hlast : horizon ≤ lastSecond := by decide
    have hnanos := now.nanos_lt
    have := hnow.1
    have := hnow.2
    have hfrom : ∀ seconds nanos : Int, 0 ≤ seconds → seconds ≤ now.seconds + 1 →
        -604800000000000 ≤ nanos → nanos < -604799000000000 →
        ∃ u, Instant.fromSecond? seconds nanos = some u := fun seconds nanos _ _ _ _ =>
      ⟨_, dif_pos ⟨⟨by omega, by omega, by omega⟩, fun hleap => absurd hleap (by omega)⟩⟩
    unfold Instant.subtract? Instant.add?
    rw [hback]
    split
    · exact hfrom _ _ (by omega) (by omega) (by omega) (by omega)
    · rw [if_neg (by omega), if_pos (by decide)]
      exact hfrom _ _ (by omega) (by omega) (by omega) (by omega)
  unfold prune
  rw [hweek]
  show (need .outOfRange (now.subtract? week) >>= _).InTime
  exact InTime.bind (.needed hcutoff _) fun _ => .get fun w hw => ⟨nofun, hw⟩

end Change

end MailCampaign
