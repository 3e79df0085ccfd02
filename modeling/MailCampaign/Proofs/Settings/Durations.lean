import MailCampaign.Proofs.Engine.Feed
import MailCampaign.Proofs.Retry.Backoff
import MailCampaign.Proofs.World.Registry
import MailCampaign.Proofs.World.Stay

/-!
# Times that are set

Times in the settings are numbers of 64 bits without a sign, and they are read as numbers with one. A
number of the lower half keeps its value, and where it makes a span at all, the engine honours it: delays
before a retry lie between nothing and the longest one that is set, and pruning forgets the keys that are
older than the time for which they are kept, and no others. A number of the upper half becomes negative,
and its meaning turns into its opposite: the first retry is due before the attempt that failed, and
pruning forgets all keys, up to those of this very instant (`FlowSettings.durations_honoured`).
-/

namespace MailCampaign

/-! ## Delays -/

theorem nanos_of_settingSpan? {n : UInt64} {d : Span} (h : settingSpan? n = some d) :
    d.nanos = n.toInt64.toInt * 1000000000 := Span.nanos_of_ofSeconds? h

namespace RetryPolicy

variable {s : FlowSettings} {p : RetryPolicy}

theorem of_ofSettings? (h : ofSettings? s = some p) :
    settingSpan? s.retryBaseSecs = some p.base ∧ settingSpan? s.retryMaxSecs = some p.longest := by
  unfold ofSettings? at h
  obtain ⟨base, hbase, h⟩ := Option.bind_eq_some_iff.1 h
  obtain ⟨longest, hlongest, h⟩ := Option.bind_eq_some_iff.1 h
  obtain rfl := Option.some.inj h
  exact ⟨hbase, hlongest⟩

/-- Delays that are set with numbers of the lower half lie within their limits. -/
theorem backoff_of_lower (h : ofSettings? s = some p) (hbase : s.retryBaseSecs.toNat < 2 ^ 63)
    (hmax : s.retryMaxSecs.toNat < 2 ^ 63) (attempt : UInt32) :
    0 ≤ (p.backoff attempt).nanos ∧
      (p.backoff attempt).nanos ≤ s.retryMaxSecs.toNat * 1000000000 := by
  obtain ⟨hb, hl⟩ := of_ofSettings? h
  have hb := nanos_of_settingSpan? hb
  have hl := nanos_of_settingSpan? hl
  rw [UInt64.toInt_toInt64 hbase] at hb
  rw [UInt64.toInt_toInt64 hmax] at hl
  refine ⟨backoff_nonneg (by omega) (by omega) attempt, ?_⟩
  rw [← hl]
  exact p.backoff_le attempt

/-- With a number of the upper half the first retry comes before the attempt that failed. -/
theorem backoff_of_upper (h : ofSettings? s = some p)
    (hupper : 2 ^ 63 ≤ s.retryBaseSecs.toNat ∨ 2 ^ 63 ≤ s.retryMaxSecs.toNat) :
    (p.backoff 1).nanos < 0 := by
  obtain ⟨hb, hl⟩ := of_ofSettings? h
  have hb := nanos_of_settingSpan? hb
  have hl := nanos_of_settingSpan? hl
  rw [nanos_backoff_one]
  rcases hupper with hbase | hmax
  · have hneg := UInt64.toInt_toInt64_neg hbase
    omega
  · have hneg := UInt64.toInt_toInt64_neg hmax
    omega

end RetryPolicy

/-! ## Keys -/

/-- A later world that has kept the keys first seen since an instant, and no others. -/
structure World.KeepsSince (cutoff : Instant) (w v : World) : Prop where
  admitted : ∀ key t, v.Admitted key t ↔ w.Admitted key t ∧ cutoff ≤ t
  counted : ∀ key t, v.statistics.applied.find? key = some t ↔
    w.statistics.applied.find? key = some t ∧ cutoff ≤ t

theorem World.keepsSince_pruned (w : World) (cutoff : Instant) : KeepsSince cutoff w
    { w with seen := w.seen.prune cutoff, statistics := w.statistics.prune cutoff } where
  admitted := by
    intro key t
    rw [Admitted, Admitted, SeenKeys.find?_prune]
    cases w.seen.table.find? key with
    | none => simp
    | some a =>
      by_cases hkept : cutoff ≤ a.time
      · simp only [Option.filter_some, decide_eq_true hkept, if_true, Option.map_some,
          Option.some.injEq]
        exact ⟨fun h => ⟨h, h ▸ hkept⟩, And.left⟩
      · simp only [Option.filter_some, decide_eq_false hkept, Option.map_some, Option.some.injEq]
        exact ⟨fun h => (by cases h), fun h => absurd (h.1 ▸ h.2) hkept⟩
  counted := by
    intro key t
    rw [Statistics.prune, Table.find?_keepIf, Option.filter_eq_some_iff, decide_eq_true_iff]

namespace Change

variable {ttlHours : UInt64} {now : Instant} {w v : World} {n : Nat}

/-- Pruning that succeeds keeps to one cutoff. -/
theorem keepsSince_of_prune (h : (prune ttlHours now).on w = (.ok n, v)) :
    ∃ ttl cutoff, Span.ofHours? ttlHours.toInt64.toInt = some ttl ∧
      now.subtract? ttl = some cutoff ∧ World.KeepsSince cutoff w v := by
  unfold prune at h
  cases httl : Span.ofHours? ttlHours.toInt64.toInt with
  | none =>
    rw [httl, on_bind_error (on_need_none _ _)] at h
    cases h
  | some ttl =>
    rw [httl, on_bind_ok (on_need_some _ _ _)] at h
    cases hcutoff : now.subtract? ttl with
    | none =>
      rw [hcutoff, on_bind_error (on_need_none _ _)] at h
      cases h
    | some cutoff =>
      rw [hcutoff, on_bind_ok (on_need_some _ _ _)] at h
      obtain rfl := (Prod.mk.inj h).2
      exact ⟨ttl, cutoff, rfl, hcutoff, w.keepsSince_pruned cutoff⟩

/-- With a number of the upper half the cutoff lies ahead. -/
theorem lt_cutoff_of_upper {ttl : Span} {cutoff : Instant} (hupper : 2 ^ 63 ≤ ttlHours.toNat)
    (httl : Span.ofHours? ttlHours.toInt64.toInt = some ttl) (hcutoff : now.subtract? ttl = some cutoff) :
    now < cutoff := by
  have hneg := UInt64.toInt_toInt64_neg hupper
  have hnanos := Span.nanos_of_ofSeconds? httl
  have hforwards : 0 < ttl.negate.nanos := by
    show 0 < -ttl.nanos
    omega
  exact Instant.lt_add? hforwards hcutoff

end Change

/-- **Times that are set are honoured in the lower half of their range, and turned round in the upper
half.** When the settings make a policy, and both its times are less than `2 ^ 63` seconds, every delay
lies between nothing and the longest one that is set, and no retry is due before the attempt that failed;
otherwise the first one is. When pruning succeeds, and keys are kept for less than `2 ^ 63` hours, it
forgets the keys that were first seen before that time, and no others; otherwise it keeps only keys from
the future. -/
theorem FlowSettings.durations_honoured (s : FlowSettings) :
    (∀ p, RetryPolicy.ofSettings? s = some p →
      (s.retryBaseSecs.toNat < 2 ^ 63 → s.retryMaxSecs.toNat < 2 ^ 63 → ∀ attempt,
        0 ≤ (p.backoff attempt).nanos ∧
        (p.backoff attempt).nanos ≤ s.retryMaxSecs.toNat * 1000000000 ∧
        ∀ now due : Instant, now.add? (p.backoff attempt) = some due → now ≤ due) ∧
      (2 ^ 63 ≤ s.retryBaseSecs.toNat ∨ 2 ^ 63 ≤ s.retryMaxSecs.toNat → (p.backoff 1).nanos < 0)) ∧
    ∀ w now n v, (Change.prune s.idempotencyTtlHours now).on w = (.ok n, v) →
      (s.idempotencyTtlHours.toNat < 2 ^ 63 → ∃ ttl cutoff,
        Span.ofHours? s.idempotencyTtlHours.toNat = some ttl ∧ now.subtract? ttl = some cutoff ∧
        World.KeepsSince cutoff w v) ∧
      (2 ^ 63 ≤ s.idempotencyTtlHours.toNat → ∃ cutoff, now < cutoff ∧ World.KeepsSince cutoff w v) := by
  refine ⟨fun p hp => ⟨fun hbase hmax attempt => ?_, RetryPolicy.backoff_of_upper hp⟩,
    fun w now n v hprune => ?_⟩
  · obtain ⟨hpos, hle⟩ := RetryPolicy.backoff_of_lower hp hbase hmax attempt
    exact ⟨hpos, hle, fun now due => Instant.le_add? hpos⟩
  · obtain ⟨ttl, cutoff, httl, hcutoff, hkeeps⟩ := Change.keepsSince_of_prune hprune
    refine ⟨fun hlower => ⟨ttl, cutoff, ?_, hcutoff, hkeeps⟩,
      fun hupper => ⟨cutoff, Change.lt_cutoff_of_upper hupper httl hcutoff, hkeeps⟩⟩
    rw [← UInt64.toInt_toInt64 hlower]
    exact httl

/-- A world in which a lead opened a mail, and nothing else happened. -/
def World.opened : World :=
  ((Engine.ingest Services.plain (.ofAda .opened) .epoch).on ⟨World.empty 0, 0⟩).2.world

theorem World.admitted_opened : opened.Admitted (Engagement.ofAda .opened).key .epoch := by
  unfold Admitted
  decide +kernel

/-- Settings with the longest delays there are, and with keys that are kept for two days. -/
def FlowSettings.unhurried : FlowSettings :=
  { retryBaseSecs := 9223372036854775, retryMaxSecs := 9223372036854775, idempotencyTtlHours := 48 }

/-- After two days to the second the key is still there. -/
theorem FlowSettings.durations_honoured_unhurried :
    (∃ p, RetryPolicy.ofSettings? unhurried = some p ∧ ∀ attempt, 0 ≤ (p.backoff attempt).nanos) ∧
    ∃ v, (Change.prune unhurried.idempotencyTtlHours .secondDay).on .opened = (.ok 0, v) ∧
      v.Admitted (Engagement.ofAda .opened).key .epoch := by
  obtain ⟨hpolicy, hprune⟩ := durations_honoured unhurried
  refine ⟨⟨_, rfl, fun attempt => ((hpolicy _ rfl).1 (by decide) (by decide) attempt).1⟩, ?_⟩
  have hok : ((Change.prune unhurried.idempotencyTtlHours .secondDay).on .opened).1 = .ok 0 := by
    decide +kernel
  obtain ⟨ttl, cutoff, httl, hcutoff, hkeeps⟩ := (hprune _ _ _ _ (Prod.ext hok rfl)).1 (by decide)
  have hback : (Span.ofHours? unhurried.idempotencyTtlHours.toNat).bind Instant.secondDay.subtract? =
      some .epoch := by decide +kernel
  rw [httl, Option.bind_some, hcutoff] at hback
  obtain rfl := Option.some.inj hback
  exact ⟨_, Prod.ext hok rfl, (hkeeps.admitted _ _).2 ⟨World.admitted_opened, Int.le_refl _⟩⟩

/-- With the greatest number of 64 bits for the longest delay, the first retry comes a second before the
attempt that failed, and with that number of hours for which keys are kept, pruning forgets the key of an
event that was received at this very instant, in both registries. -/
theorem FlowSettings.turned_round :
    (∃ p, RetryPolicy.ofSettings? { retryMaxSecs := 18446744073709551615 } = some p ∧
      (p.backoff 1).seconds = -1) ∧
    World.opened.Admitted (Engagement.ofAda .opened).key .epoch ∧
    ∃ v, (Change.prune 18446744073709551615 .epoch).on .opened = (.ok 2, v) ∧
      ¬ v.Admitted (Engagement.ofAda .opened).key .epoch := by
  refine ⟨⟨_, rfl, by decide⟩, World.admitted_opened, _, Prod.ext ?_ rfl, ?_⟩
  · decide +kernel
  · unfold World.Admitted
    decide +kernel

end MailCampaign
