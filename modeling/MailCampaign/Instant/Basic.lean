import MailCampaign.Instant.Calendar

/-!
# Instants and spans of time

An instant is a second of the UTC day count and nanoseconds within it. A leap second shares the
number of the second before it, the last one of a minute, and has a thousand million nanoseconds more,
so instants are ordered by their ticks: the second first, then the nanoseconds. A span is a number of
nanoseconds. Both have a limited range, and an operation that would leave it has no result. A span that
comes from a setting is shorter than one that comes from a multiplication may be.
-/

namespace MailCampaign

/-- The last second that an instant may have, in the year 262142. -/
def lastSecond : Int := (Date.mk 262142 12 31).toDays * 86400 + 86399

/-- The first second that an instant may have, in the year -262143. -/
def firstSecond : Int := (Date.mk (-262143) 1 1).toDays * 86400

/-- A point in time with nanosecond precision. -/
structure Instant where
  /-- Seconds since 1970-01-01T00:00:00Z. -/
  seconds : Int
  /-- Nanoseconds within the second; from a thousand million on they lie in a leap second. -/
  nanos : Nat
  nanos_lt : nanos < 2000000000
  inRange : firstSecond ≤ seconds ∧ seconds ≤ lastSecond
  /-- A leap second follows the last second of a minute. -/
  leap : 1000000000 ≤ nanos → seconds % 60 = 59
deriving DecidableEq

/-- The instant with these parts, when it is in range. -/
def Instant.make? (seconds : Int) (nanos : Nat) : Option Instant :=
  if h : (nanos < 2000000000 ∧ firstSecond ≤ seconds ∧ seconds ≤ lastSecond) ∧
      (1000000000 ≤ nanos → seconds % 60 = 59) then
    some ⟨seconds, nanos, h.1.1, h.1.2, h.2⟩
  else none

/-- 1970-01-01T00:00:00Z. -/
def Instant.epoch : Instant := ⟨0, 0, by decide, by decide, by decide⟩

instance : Inhabited Instant := ⟨Instant.epoch⟩

/-- The position of an instant on the time line. -/
def Instant.ticks (t : Instant) : Int := t.seconds * 2000000000 + t.nanos

instance : LE Instant := ⟨fun a b => a.ticks ≤ b.ticks⟩
instance : LT Instant := ⟨fun a b => a.ticks < b.ticks⟩
instance (a b : Instant) : Decidable (a ≤ b) := inferInstanceAs (Decidable (a.ticks ≤ b.ticks))
instance (a b : Instant) : Decidable (a < b) := inferInstanceAs (Decidable (a.ticks < b.ticks))

theorem Instant.le_iff {a b : Instant} : a ≤ b ↔ a.ticks ≤ b.ticks := Iff.rfl
theorem Instant.lt_iff {a b : Instant} : a < b ↔ a.ticks < b.ticks := Iff.rfl

/-- Instants at the same position are the same. -/
theorem Instant.ticks_inj {a b : Instant} (h : a.ticks = b.ticks) : a = b := by
  obtain ⟨s, n, hn, hr, hl⟩ := a
  obtain ⟨s', n', hn', hr', hl'⟩ := b
  simp only [Instant.ticks] at h
  have hs : s = s' := by omega
  have hm : n = n' := by omega
  subst hs; subst hm; rfl

/-- The earlier of two instants. -/
def Instant.earlier (a b : Instant) : Instant := if a ≤ b then a else b

/-- The later of two instants. -/
def Instant.later (a b : Instant) : Instant := if a ≤ b then b else a

theorem Instant.le_later (a b : Instant) : b ≤ a.later b := by
  unfold Instant.later
  split
  · exact Int.le_refl _
  · next h => rw [Instant.le_iff] at h ⊢; omega

/-- Whole milliseconds since 1970-01-01T00:00:00Z, rounded down. -/
def Instant.millis (t : Instant) : Int := t.seconds * 1000 + (t.nanos / 1000000 : Nat)

/-! ## Spans -/

/-- The longest span that is given in seconds. -/
def longestSpan : Int := 9223372036854775

/-- The nanoseconds of the longest span of all, whose seconds are the greatest number of 64 bits with
a sign. -/
def spanLimit : Int := 9223372036854775807000000000

/-- A number of nanoseconds, forwards or backwards. -/
structure Span where
  nanos : Int
  inRange : -spanLimit ≤ nanos ∧ nanos ≤ spanLimit
deriving DecidableEq

instance : LE Span := ⟨fun a b => a.nanos ≤ b.nanos⟩
instance (a b : Span) : Decidable (a ≤ b) := inferInstanceAs (Decidable (a.nanos ≤ b.nanos))

/-- The whole seconds of a span, rounded down. -/
def Span.seconds (a : Span) : Int := a.nanos / 1000000000

theorem Span.seconds_nonneg {a : Span} : 0 ≤ a.seconds ↔ 0 ≤ a.nanos := by
  unfold Span.seconds
  omega

/-- A number of seconds that fits in 64 bits. -/
def Span.ofSeconds (n : Int) (h : -0x8000000000000000 < n ∧ n < 0x8000000000000000) : Span :=
  ⟨n * 1000000000, by unfold spanLimit; omega⟩

/-- The span of that many seconds, when it is no longer than the longest. -/
def Span.ofSeconds? (n : Int) : Option Span :=
  if h : -longestSpan ≤ n ∧ n ≤ longestSpan then
    some (.ofSeconds n (by unfold longestSpan at h; omega))
  else none

theorem Span.nanos_of_ofSeconds? {n : Int} {a : Span} (h : Span.ofSeconds? n = some a) :
    a.nanos = n * 1000000000 := by
  unfold Span.ofSeconds? at h
  split at h
  · rw [← Option.some.inj h]
    rfl
  · cases h

/-- The span of that many hours, when it is no longer than the longest. -/
def Span.ofHours? (n : Int) : Option Span := Span.ofSeconds? (n * 3600)

/-- The shorter of two spans. -/
def Span.shorter (a b : Span) : Span := if a ≤ b then a else b

/-- The span in the other direction. -/
def Span.negate (a : Span) : Span :=
  ⟨-a.nanos, by have := a.inRange; omega⟩

/-- A span as many times as long, when its seconds fit. The greatest number of 64 bits is left
out. -/
def Span.times? (a : Span) (n : Int) : Option Span :=
  if h : -spanLimit ≤ a.nanos * n ∧ a.nanos * n < spanLimit then
    some ⟨a.nanos * n, h.1, Int.le_of_lt h.2⟩
  else none

theorem Span.nanos_shorter (a b : Span) : (a.shorter b).nanos = min a.nanos b.nanos := by
  unfold Span.shorter
  split
  · next h => exact (Int.min_eq_left h).symm
  · next h => exact (Int.min_eq_right (Int.le_of_lt (Int.not_le.1 h))).symm

theorem Span.nanos_of_times? {a b : Span} {n : Int} (h : a.times? n = some b) :
    b.nanos = a.nanos * n := by
  unfold Span.times? at h
  split at h
  · rw [← Option.some.inj h]
  · cases h

/-- A span forwards has no multiple only where that would be longer than all spans. -/
theorem Span.le_of_times?_eq_none {a : Span} {n : Nat} (ha : 0 ≤ a.nanos)
    (h : a.times? n = none) : spanLimit ≤ a.nanos * n := by
  unfold Span.times? at h
  split at h
  · cases h
  · next hout =>
    have hpos : 0 ≤ a.nanos * n := Int.mul_nonneg ha (Int.natCast_nonneg n)
    have hlimit : (0 : Int) ≤ spanLimit := by decide
    omega

/-- The instant that many nanoseconds from the start of a second, when it is in range. -/
def Instant.fromSecond? (seconds nanos : Int) : Option Instant :=
  Instant.make? (seconds + nanos / 1000000000) (nanos % 1000000000).toNat

/-- The instant a span away, when it is in range. A span of less than a second may stay in a leap
second, or lead back from it to the second before. Any other span leads out of it: forwards from the
second before it, backwards from the second after it. -/
def Instant.add? (t : Instant) (d : Span) : Option Instant :=
  if t.nanos < 1000000000 then Instant.fromSecond? t.seconds (t.nanos + d.nanos)
  else if -1000000000 < d.nanos ∧ d.nanos < 1000000000 ∧ t.nanos + d.nanos < 2000000000 then
    Instant.make? t.seconds (t.nanos + d.nanos).toNat
  else if d.nanos < 0 then Instant.fromSecond? (t.seconds + 1) (t.nanos - 1000000000 + d.nanos)
  else Instant.fromSecond? t.seconds (t.nanos - 1000000000 + d.nanos)

theorem Instant.make?_self (t : Instant) : Instant.make? t.seconds t.nanos = some t :=
  dif_pos ⟨⟨t.nanos_lt, t.inRange⟩, t.leap⟩

theorem Instant.make?_eq_some {seconds : Int} {nanos : Nat} {t : Instant}
    (h : Instant.make? seconds nanos = some t) : t.seconds = seconds ∧ t.nanos = nanos := by
  unfold Instant.make? at h
  split at h
  · injection h with h
    subst h
    exact ⟨rfl, rfl⟩
  · cases h

theorem Instant.fromSecond?_eq_some {seconds nanos : Int} {t : Instant}
    (h : Instant.fromSecond? seconds nanos = some t) :
    t.seconds = seconds + nanos / 1000000000 ∧ (t.nanos : Int) = nanos % 1000000000 := by
  obtain ⟨hs, hn⟩ := Instant.make?_eq_some h
  exact ⟨hs, by rw [hn]; omega⟩

/-- A span forwards leads to a later instant, also out of a leap second. -/
theorem Instant.lt_add? {t u : Instant} {d : Span} (hd : 0 < d.nanos)
    (h : t.add? d = some u) : t < u := by
  have hn := t.nanos_lt
  rw [Instant.lt_iff]
  unfold Instant.ticks
  unfold Instant.add? at h
  split at h
  · obtain ⟨hs, hn⟩ := Instant.fromSecond?_eq_some h
    omega
  split at h
  · obtain ⟨hs, hn⟩ := Instant.make?_eq_some h
    omega
  · rw [if_neg (by omega)] at h
    obtain ⟨hs, hn⟩ := Instant.fromSecond?_eq_some h
    omega

/-- The empty span leads nowhere else. -/
theorem Instant.add?_of_zero {t : Instant} {d : Span} (hd : d.nanos = 0) : t.add? d = some t := by
  have hn := t.nanos_lt
  unfold Instant.add? Instant.fromSecond?
  split
  · have hseconds : t.seconds + (t.nanos + d.nanos) / 1000000000 = t.seconds := by omega
    have hnanos : ((t.nanos + d.nanos) % 1000000000).toNat = t.nanos := by omega
    rw [hseconds, hnanos, t.make?_self]
  · have hnanos : (t.nanos + d.nanos).toNat = t.nanos := by omega
    rw [if_pos (by omega), hnanos, t.make?_self]

/-- The instant a span before, when it is in range. -/
def Instant.subtract? (t : Instant) (d : Span) : Option Instant := t.add? d.negate

end MailCampaign
