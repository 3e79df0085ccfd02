import MailCampaign.Instant.Calendar

/-!
# Days and dates

A day of an era of 400 years lies in a century, in four years of it, in one of these years and on a day
of that year. The year that the count computes is that one, so the date of a day is a date of the
calendar and is counted as that day.
-/

namespace MailCampaign

/-- A day of an era: the century, the four years within it, the year within these and the day of the
year, years counted from March. Only a leap year has a day after 365 others. -/
structure EraDay (e c q r d : Int) : Prop where
  sum : e = 36524 * c + 1461 * q + 365 * r + d
  century : 0 ≤ c ∧ c ≤ 3
  fourYears : 0 ≤ q ∧ q ≤ 24
  year : 0 ≤ r ∧ r ≤ 3
  day : 0 ≤ d ∧ d ≤ 365
  last : d = 365 → r = 3 ∧ (q = 24 → c = 3)

theorem exists_eraDay {e : Int} (h0 : 0 ≤ e) (h1 : e < 146097) : ∃ c q r d, EraDay e c q r d := by
  obtain ⟨c, hc⟩ : ∃ c : Int, c = min (e / 36524) 3 := ⟨_, rfl⟩
  obtain ⟨q, hq⟩ : ∃ q : Int, q = (e - 36524 * c) / 1461 := ⟨_, rfl⟩
  obtain ⟨r, hr⟩ : ∃ r : Int, r = min ((e - 36524 * c - 1461 * q) / 365) 3 := ⟨_, rfl⟩
  exact ⟨c, q, r, e - 36524 * c - 1461 * q - 365 * r,
    by omega, by omega, by omega, by omega, by omega, by omega⟩

namespace EraDay

variable {e c q r d : Int}

/-- The year of an era is computed from the day. -/
theorem computed (h : EraDay e c q r d) :
    (e - e / 1460 + e / 36524 - e / 146096) / 365 = 100 * c + 4 * q + r := by
  obtain ⟨hsum, hc, hq, hr, hd, hlast⟩ := h
  by_cases hend : e = 146096
  · rw [hend]
    have : c = 3 ∧ q = 24 ∧ r = 3 := by omega
    omega
  · have hera : e / 146096 = 0 := by omega
    have hcentury : e / 36524 = c := by omega
    rw [hera, hcentury]
    by_cases hfour : 24 * c + q + 365 * r + d < 1460
    · have hleaps : e / 1460 = 25 * c + q := by omega
      have hd' : d ≤ 364 := by omega
      rw [hleaps]
      clear hlast hera hcentury hleaps hend hfour
      omega
    · have hleaps : e / 1460 = 25 * c + q + 1 := by omega
      have hd' : 1 ≤ d := by omega
      rw [hleaps]
      clear hlast hera hcentury hleaps hend hfour
      omega

/-- A year with a last day is followed by a year divisible by four that is not cut. -/
theorem leapYear (h : EraDay e c q r d) (hd : d = 365) (era : Int) :
    leapYear (100 * c + 4 * q + r + era * 400 + 1) = true := by
  obtain ⟨-, hc, hq, -, -, hlast⟩ := h
  obtain ⟨hr, hcut⟩ := hlast hd
  simp only [MailCampaign.leapYear, Bool.or_eq_true, Bool.and_eq_true, beq_iff_eq, bne_iff_ne]
  by_cases hq' : q = 24
  · have hc' : c = 3 := hcut hq'
    subst hr hq' hc'
    right
    omega
  · subst hr
    left
    omega

end EraDay

/-- A day count as an era, a year of the era, a day of the year and a month of it, all from March. From
January on the year of the calendar is one more. -/
structure DayCut (days : Int) where
  era : Int
  year : Int
  day : Int
  month : Int
  /-- The number of the month. -/
  number : Int
  turn : Int
  sum : days + 719468 = era * 146097 + (year * 365 + year / 4 - year / 100 + day)
  year_mem : 0 ≤ year ∧ year < 400
  day_mem : 0 ≤ day ∧ day ≤ 365
  leap : day = 365 → leapYear (year + era * 400 + 1) = true
  month_eq : month = (5 * day + 2) / 153
  shift : month < 10 ∧ number = month + 3 ∧ turn = 0 ∨ 10 ≤ month ∧ number = month - 9 ∧ turn = 1
  date : Date.ofDays days =
    ⟨year + era * 400 + turn, number.toNat, (day - (153 * month + 2) / 5 + 1).toNat⟩

theorem exists_dayCut (days : Int) : Nonempty (DayCut days) := by
  obtain ⟨era, hera⟩ : ∃ era, era = (days + 719468) / 146097 := ⟨_, rfl⟩
  obtain ⟨e, he⟩ : ∃ e, e = days + 719468 - era * 146097 := ⟨_, rfl⟩
  have hdays : days + 719468 = era * 146097 + e := by omega
  obtain ⟨c, q, r, d, h⟩ := exists_eraDay (e := e) (by omega) (by omega)
  obtain ⟨year, hyear⟩ : ∃ year, year = 100 * c + 4 * q + r := ⟨_, rfl⟩
  have hsum : e = year * 365 + year / 4 - year / 100 + d := by
    obtain ⟨hsum, hc, hq, hr, -, -⟩ := h
    have hfour : year / 4 = 25 * c + q := by omega
    have hcentury : year / 100 = c := by omega
    omega
  have hday : e - (365 * year + year / 4 - year / 100) = d := by omega
  have hcomputed := h.computed
  rw [← hyear] at hcomputed
  have hyears : 0 ≤ year ∧ year < 400 := by
    obtain ⟨-, hc, hq, hr, -, -⟩ := h
    omega
  have hlast := h.day
  refine ⟨{
    era, year
    day := d
    month := (5 * d + 2) / 153
    number := if (5 * d + 2) / 153 < 10 then (5 * d + 2) / 153 + 3 else (5 * d + 2) / 153 - 9
    turn := if (5 * d + 2) / 153 < 10 then 0 else 1
    sum := by rw [hdays, ← hsum]
    year_mem := hyears
    day_mem := h.day
    leap := fun hd => hyear ▸ h.leapYear hd era
    month_eq := rfl
    shift := by
      split
      · next hspring => exact .inl ⟨hspring, rfl, rfl⟩
      · next hwinter => exact .inr ⟨Int.not_lt.1 hwinter, rfl, rfl⟩
    date := ?_ }⟩
  have hturn : (if (if (5 * d + 2) / 153 < 10 then (5 * d + 2) / 153 + 3
      else (5 * d + 2) / 153 - 9) ≤ 2 then (1 : Int) else 0) =
        if (5 * d + 2) / 153 < 10 then 0 else 1 := by
    by_cases hspring : (5 * d + 2) / 153 < 10
    · rw [if_pos hspring, if_pos hspring, if_neg (by omega)]
    · rw [if_neg hspring, if_neg hspring, if_pos (by omega)]
  simp only [Date.ofDays, ← hera, ← he, hcomputed, hday, hturn]

/-- The months from March to January have as many days as the count gives them. -/
theorem day_le_daysInMonth {y m d : Int} (h0 : 0 ≤ m) (hm : m = (5 * d + 2) / 153) (h11 : m < 11)
    {number : Nat} (hnumber : m < 10 ∧ number = m + 3 ∨ 10 ≤ m ∧ number = m - 9) :
    d - (153 * m + 2) / 5 + 1 ≤ daysInMonth y number := by
  have hcases : m = 0 ∨ m = 1 ∨ m = 2 ∨ m = 3 ∨ m = 4 ∨ m = 5 ∨ m = 6 ∨ m = 7 ∨ m = 8 ∨ m = 9 ∨
    m = 10 := by omega
  unfold daysInMonth
  rcases hcases with h | h | h | h | h | h | h | h | h | h | h <;> (repeat' split) <;> omega

/-- February has what is left of the year. -/
theorem day_le_february {y d : Int} (hd : 0 ≤ d ∧ d ≤ 365) (hleap : d = 365 → leapYear y = true) :
    d - (153 * 11 + 2) / 5 + 1 ≤ daysInMonth y 2 := by
  by_cases hlast : d = 365
  · simp [daysInMonth, hleap hlast]
    omega
  · have hshort : 28 ≤ daysInMonth y 2 := by
      unfold daysInMonth
      repeat' split
      all_goals omega
    omega

/-- The date of a day is a date of the calendar. -/
theorem Date.ofDays_real (days : Int) : (Date.ofDays days).Real := by
  obtain ⟨cut⟩ := exists_dayCut days
  have hday := cut.day_mem
  have hmonth := cut.month_eq
  have hrange : 0 ≤ cut.month ∧ cut.month ≤ 11 := by omega
  have hfirst : 1 ≤ (cut.day - (153 * cut.month + 2) / 5 + 1).toNat := by omega
  have hshift := cut.shift
  have hnumber : 1 ≤ cut.number.toNat ∧ cut.number.toNat ≤ 12 := by
    clear hmonth hfirst
    omega
  rw [cut.date]
  refine ⟨hnumber.1, hnumber.2, hfirst, ?_⟩
  dsimp only
  by_cases hlast : cut.month = 11
  · have hnumber : cut.number.toNat = 2 := by omega
    have hturn : cut.turn = 1 := by omega
    rw [hnumber, hturn]
    have := day_le_february hday cut.leap
    rw [hlast]
    omega
  · have hnumber : cut.month < 10 ∧ (cut.number.toNat : Int) = cut.month + 3 ∨
        10 ≤ cut.month ∧ (cut.number.toNat : Int) = cut.month - 9 := by
      clear hmonth hfirst
      omega
    have := day_le_daysInMonth (y := cut.year + cut.era * 400 + cut.turn) hrange.1 hmonth (by omega)
      hnumber
    omega

/-- And it is counted as that day. -/
theorem Date.toDays_ofDays (days : Int) : (Date.ofDays days).toDays = days := by
  obtain ⟨cut⟩ := exists_dayCut days
  have hday := cut.day_mem
  have hmonth := cut.month_eq
  have hyear := cut.year_mem
  have hsum := cut.sum
  rw [cut.date, Date.toDays]
  dsimp only
  have hdate : (((cut.day - (153 * cut.month + 2) / 5 + 1).toNat : Nat) : Int) =
      cut.day - (153 * cut.month + 2) / 5 + 1 := by omega
  have hera : (cut.year + cut.era * 400) / 400 = cut.era := by omega
  have hdays : (153 * cut.month + 2) / 5 + (cut.day - (153 * cut.month + 2) / 5 + 1) - 1 = cut.day := by
    omega
  rcases cut.shift with ⟨hspring, hnumber, hturn⟩ | ⟨hwinter, hnumber, hturn⟩
  · have hcount : (cut.number.toNat : Int) - 3 = cut.month := by omega
    rw [hdate, hturn, if_neg (by omega), if_pos (by omega), Int.add_zero, hera, Int.add_sub_cancel,
      hcount, hdays]
    omega
  · have hcount : (cut.number.toNat : Int) + 9 = cut.month := by omega
    rw [hdate, hturn, if_pos (by omega), if_neg (by omega), Int.add_sub_cancel, hera,
      Int.add_sub_cancel, hcount, hdays]
    omega

end MailCampaign
