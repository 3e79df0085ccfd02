import MailCampaign.Retry
import Mathlib.Algebra.Ring.Int.Defs

/-!
# The delay before a retry

The delay is computed with spans, which have a greatest length: the first delay is multiplied, and a
product that would be no span counts as the longest delay. Nothing is lost by that. Such a product is
longer than all spans, so the longest delay is what remains of it in any case, and the delay is the one
that unbounded numbers give (`nanos_backoff`). Everything else about it follows (`backoff_exact`).
-/

namespace MailCampaign.RetryPolicy

variable {p : RetryPolicy}

theorem doublings_eq (attempt : UInt32) : doublings attempt = min (max attempt.toNat 1 - 1) 30 := by
  unfold doublings
  omega

theorem doublings_mono {a b : UInt32} (h : a ≤ b) : doublings a ≤ doublings b := by
  have hle : a.toNat ≤ b.toNat := UInt32.le_iff_toNat_le.1 h
  unfold doublings
  omega

theorem doublings_succ {attempt : UInt32} (hfirst : 1 ≤ attempt) (hlast : attempt < 31) :
    doublings (attempt + 1) = doublings attempt + 1 := by
  have hone : 1 ≤ attempt.toNat := UInt32.le_iff_toNat_le.1 hfirst
  have hless : attempt.toNat < 31 := UInt32.lt_iff_toNat_lt.1 hlast
  have hnext : (attempt + 1).toNat = attempt.toNat + 1 := by
    rw [UInt32.toNat_add, UInt32.toNat_one]
    omega
  unfold doublings
  omega

theorem doublings_of_le {attempt : UInt32} (h : 31 ≤ attempt) : doublings attempt = 30 := by
  have hle : 31 ≤ attempt.toNat := UInt32.le_iff_toNat_le.1 h
  unfold doublings
  omega

/-- A product that is no span is at least as long as the longest delay. -/
theorem longest_le_of_overflow {n : Nat} (hbase : 0 ≤ p.base.nanos) (h : p.base.times? n = none) :
    p.longest.nanos ≤ p.base.nanos * n :=
  Int.le_trans p.longest.inRange.2 (Span.le_of_times?_eq_none hbase h)

theorem nanos_backoff (hbase : 0 ≤ p.base.nanos) (attempt : UInt32) :
    (p.backoff attempt).nanos = min (p.base.nanos * 2 ^ doublings attempt) p.longest.nanos := by
  have hpower : ((1 <<< doublings attempt : Nat) : Int) = 2 ^ doublings attempt := by
    rw [Nat.one_shiftLeft]
    exact Int.natCast_pow 2 _
  rw [backoff, Span.nanos_shorter, ← hpower]
  cases h : p.base.times? (1 <<< doublings attempt : Nat) with
  | some d => rw [Option.getD_some, Span.nanos_of_times? h]
  | none =>
    rw [Option.getD_none, Int.min_self, Int.min_eq_right (longest_le_of_overflow hbase h)]

example : ([1, 2, 4, 5, 40].map fun attempt =>
    (backoff ⟨10, .ofSeconds 60 (by decide), .ofSeconds 600 (by decide)⟩ attempt).seconds) =
      [60, 120, 480, 600, 600] := by decide

theorem nanos_backoff_one (p : RetryPolicy) :
    (p.backoff 1).nanos = min p.base.nanos p.longest.nanos := by
  have hdoublings : (1 <<< doublings 1 : Nat) = 1 := by decide
  have hrange := p.base.inRange
  have hlongest := p.longest.inRange
  rw [backoff, Span.nanos_shorter, hdoublings]
  cases h : p.base.times? (1 : Nat) with
  | some d => rw [Option.getD_some, Span.nanos_of_times? h, Int.natCast_one, Int.mul_one]
  | none =>
    -- Only the greatest span is no multiple of itself.
    have hnot : ¬ p.base.nanos < spanLimit := fun hlt => by
      unfold Span.times? at h
      rw [dif_pos (by omega)] at h
      cases h
    rw [Option.getD_none]
    omega

theorem backoff_nonneg (hbase : 0 ≤ p.base.nanos) (hlongest : 0 ≤ p.longest.nanos)
    (attempt : UInt32) : 0 ≤ (p.backoff attempt).nanos := by
  have hpower : (0 : Int) ≤ 2 ^ doublings attempt := Int.pow_nonneg (by decide)
  rw [nanos_backoff hbase]
  exact Int.le_min.2 ⟨Int.mul_nonneg hbase hpower, hlongest⟩

theorem backoff_le (p : RetryPolicy) (attempt : UInt32) : p.backoff attempt ≤ p.longest := by
  show (p.backoff attempt).nanos ≤ p.longest.nanos
  rw [backoff, Span.nanos_shorter]
  exact Int.min_le_right _ _

theorem backoff_mono (hbase : 0 ≤ p.base.nanos) {a b : UInt32} (h : a ≤ b) :
    p.backoff a ≤ p.backoff b := by
  have hpower : (2 : Int) ^ doublings a ≤ 2 ^ doublings b := by
    exact_mod_cast Nat.pow_le_pow_right (by decide) (doublings_mono h)
  have hproduct := Int.mul_le_mul_of_nonneg_left hpower hbase
  show (p.backoff a).nanos ≤ (p.backoff b).nanos
  rw [nanos_backoff hbase, nanos_backoff hbase]
  omega

/-- From one attempt to the next the delay doubles, as long as it is not cut off. -/
theorem nanos_backoff_succ (hbase : 0 ≤ p.base.nanos) (hlongest : 0 ≤ p.longest.nanos)
    {attempt : UInt32} (hfirst : 1 ≤ attempt) (hlast : attempt < 31) :
    (p.backoff (attempt + 1)).nanos = min (2 * (p.backoff attempt).nanos) p.longest.nanos := by
  have hdoubled : p.base.nanos * 2 ^ (doublings attempt + 1) =
      2 * (p.base.nanos * 2 ^ doublings attempt) := by
    rw [Int.pow_succ, Int.mul_comm (2 ^ _), Int.mul_left_comm]
  have hproduct : 0 ≤ p.base.nanos * 2 ^ doublings attempt :=
    Int.mul_nonneg hbase (Int.pow_nonneg (by decide))
  rw [nanos_backoff hbase, nanos_backoff hbase, doublings_succ hfirst hlast, hdoubled]
  omega

theorem backoff_of_le (p : RetryPolicy) {attempt : UInt32} (h : 31 ≤ attempt) :
    p.backoff attempt = p.backoff 31 := by
  rw [backoff, backoff, doublings_of_le h]
  rfl

theorem backoff_of_overflow {attempt : UInt32}
    (h : p.base.times? (1 <<< doublings attempt : Nat) = none) : p.backoff attempt = p.longest := by
  rw [backoff, h, Option.getD_none, Span.shorter, ite_self]

/-- **The delay doubles exactly, up to its limit.** Whatever the first and the longest delay of a policy
are, as long as they are not negative, the delay before a retry is the first one doubled for every
attempt after the first, thirty times at most, and cut off at the longest one, in unbounded numbers. So
it is not negative and never longer than the longest one, it never falls from attempt to attempt, it
doubles as long as it is not cut off, and from attempt 31 on it stays. Where the product is no span, the
longest delay stands in for it, and the product itself would not be shorter. -/
theorem backoff_exact (hbase : 0 ≤ p.base.nanos) (hlongest : 0 ≤ p.longest.nanos) :
    (∀ attempt : UInt32, (p.backoff attempt).nanos =
      min (p.base.nanos * 2 ^ min (max attempt.toNat 1 - 1) 30) p.longest.nanos) ∧
    (∀ attempt, 0 ≤ (p.backoff attempt).nanos ∧ p.backoff attempt ≤ p.longest) ∧
    (∀ a b, a ≤ b → p.backoff a ≤ p.backoff b) ∧
    (∀ attempt, 1 ≤ attempt → attempt < 31 →
      (p.backoff (attempt + 1)).nanos = min (2 * (p.backoff attempt).nanos) p.longest.nanos) ∧
    (∀ attempt, 31 ≤ attempt → p.backoff attempt = p.backoff 31) ∧
    ∀ attempt, p.base.times? (1 <<< doublings attempt : Nat) = none →
      p.backoff attempt = p.longest ∧
        p.longest.nanos ≤ p.base.nanos * 2 ^ min (max attempt.toNat 1 - 1) 30 := by
  have hexact (attempt : UInt32) : (p.backoff attempt).nanos =
      min (p.base.nanos * 2 ^ min (max attempt.toNat 1 - 1) 30) p.longest.nanos := by
    rw [nanos_backoff hbase, doublings_eq]
  refine ⟨hexact, fun attempt => ⟨backoff_nonneg hbase hlongest attempt, p.backoff_le attempt⟩,
    fun a b hab => backoff_mono hbase hab, fun attempt => nanos_backoff_succ hbase hlongest,
    fun attempt => p.backoff_of_le, fun attempt hover => ⟨backoff_of_overflow hover, ?_⟩⟩
  have hlongest := hexact attempt
  rw [backoff_of_overflow hover] at hlongest
  omega

/-- Delays as long as a setting can make them, and the limit a bit longer. -/
def unhurried : RetryPolicy :=
  ⟨5, .ofSeconds 9223372036854775 (by decide), ⟨9223372036854775807000000, by decide⟩⟩

/-- The twelfth delay is one whose product is no span. -/
theorem backoff_exact_unhurried :
    (unhurried.backoff 1).nanos = 9223372036854775000000000 ∧
      unhurried.backoff 12 = unhurried.longest := by
  obtain ⟨hexact, -, -, -, -, hoverflow⟩ :=
    backoff_exact (p := unhurried) (by decide) (by decide)
  exact ⟨(hexact 1).trans (by decide), (hoverflow 12 (by decide)).1⟩

end MailCampaign.RetryPolicy
