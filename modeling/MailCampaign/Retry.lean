import MailCampaign.Instant.Basic
import MailCampaign.Settings.Basic

/-!
# Waiting before another attempt

The delay before a failed mail is tried again doubles from attempt to attempt up to a limit. The
settings are read as signed 64-bit numbers, and a delay that would not be a span counts as the limit.
With a negative setting the delay is negative and only grows in the other direction.
-/

namespace MailCampaign

/-- How often and when a failed mail is tried again. -/
structure RetryPolicy where
  /-- The number of attempts after the first. -/
  limit : UInt32
  base : Span
  longest : Span

/-- A number of 64 bits keeps its value when it is read as a signed one, but for the upper half. -/
theorem UInt64.toInt_toInt64 {n : UInt64} (h : n.toNat < 0x8000000000000000) : n.toInt64.toInt = n.toNat := by
  show n.toBitVec.toInt = _
  rw [BitVec.toInt_eq_toNat_of_lt (by rw [UInt64.toNat_toBitVec]; omega)]
  rfl

/-- The upper half becomes negative. -/
theorem UInt64.toInt_toInt64_neg {n : UInt64} (h : 0x8000000000000000 ≤ n.toNat) : n.toInt64.toInt < 0 := by
  show n.toBitVec.toInt < 0
  have hlt := n.toNat_lt
  rw [BitVec.toInt_eq_toNat_cond, UInt64.toNat_toBitVec]
  split <;> omega

/-- A setting in seconds as a span, when it is in range. -/
def settingSpan? (n : UInt64) : Option Span := Span.ofSeconds? n.toInt64.toInt

namespace RetryPolicy

/-- The policy of the settings, when their times are in range. -/
def ofSettings? (s : FlowSettings) : Option RetryPolicy := do
  let base ← settingSpan? s.retryBaseSecs
  let longest ← settingSpan? s.retryMaxSecs
  some ⟨s.maxSendRetries, base, longest⟩

/-- How many times the delay before an attempt has doubled, at most thirty times. -/
def doublings (attempt : UInt32) : Nat := min (attempt.toNat - 1) 30

/-- The delay before a retry; the first one has number one. -/
def backoff (p : RetryPolicy) (attempt : UInt32) : Span :=
  ((p.base.times? (1 <<< doublings attempt : Nat)).getD p.longest).shorter p.longest

end RetryPolicy

end MailCampaign
