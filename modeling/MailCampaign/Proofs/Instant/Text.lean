import MailCampaign.Instant.Text
import MailCampaign.Proofs.Instant.Calendar
import MailCampaign.Proofs.Text.Numeral

/-!
# Instants are read back from their text

Each part of the text ends where the next one starts: numbers of a fixed width with their last digit,
the year of a signed date and the fraction of a second with a character that is no digit.
-/

namespace MailCampaign

theorem not_isBlank_of_isDigit {c : Char} (h : isDigit c = true) : isBlank c = false := by
  have hrange := isDigit_iff.1 h
  rw [Char.le_def, Char.le_def, UInt32.le_iff_toNat_le, UInt32.le_iff_toNat_le] at hrange
  have hlow : 48 ≤ c.val.toNat := hrange.1
  have hhigh : c.val.toNat ≤ 57 := hrange.2
  simp only [isBlank, Bool.or_eq_false_iff, Bool.and_eq_false_iff, decide_eq_false_iff_not,
    beq_eq_false_iff_ne, ne_eq, UInt32.le_iff_toNat_le, ← UInt32.toNat_inj]
  simp only [UInt32.reduceToNat]
  omega

theorem skipBlanks_padded (width n : Nat) (rest : List Char) :
    skipBlanks (padded width n ++ rest) = padded width n ++ rest := by
  refine skipBlanks_eq_self fun c hc => ?_
  rw [Option.mem_def, List.head?_append_of_ne_nil _ (padded_ne_nil width n)] at hc
  exact not_isBlank_of_isDigit (isDigit_of_mem_padded (List.mem_of_mem_head? hc))

/-! ## Numbers -/

variable {n : Nat} {rest : List Char}

/-- A number that fills its width is read whatever follows it. -/
theorem readNumber?_padded {w : Nat} (h : n < Nat.pow 10 (w + 1)) (rest : List Char) :
    readNumber? (w + 1) (padded (w + 1) n ++ rest) = some (n, rest) := by
  have hlength := length_padded h
  have htake : ((padded (w + 1) n ++ rest).take (w + 1)).takeWhile isDigit = padded (w + 1) n := by
    rw [List.take_left' hlength]
    simpa using takeWhile_digits (fun c => isDigit_of_mem_padded) endsDigits_nil
  rw [readNumber?, htake]
  rw [if_neg (padded_ne_nil (w + 1) n), digitsValue_padded, List.drop_left]

/-- A number of any length is read up to what is no digit. -/
theorem readLongNumber?_padded (width n : Nat) (hrest : EndsDigits rest) :
    readLongNumber? (padded width n ++ rest) = some (n, rest) := by
  rw [readLongNumber?, readNumber?, List.take_length,
    takeWhile_digits (fun c => isDigit_of_mem_padded) hrest, if_neg (padded_ne_nil width n),
    digitsValue_padded, List.drop_left]

theorem readPart?_padded {least greatest : Nat} (hl : least ≤ n) (hg : n ≤ greatest)
    (hn : n < 100) (rest : List Char) :
    readPart? least greatest (padded 2 n ++ rest) = some (n, rest) := by
  rw [readPart?, skipBlanks_padded, readNumber?_padded (w := 1) hn]
  exact if_pos ⟨hl, hg⟩

theorem readMark?_cons {c : Char} (h : isBlank c = false) (rest : List Char) :
    readMark? c (c :: rest) = some rest := by
  rw [readMark?, skipBlanks_eq_self (by simpa using h)]
  exact if_pos rfl

/-! ## Dates -/

theorem readYear?_yearText (y : Int) (hrest : EndsDigits rest) :
    readYear? (yearText y ++ rest) = some (y, rest) := by
  unfold yearText
  split
  · next h =>
    have hsmall : y.toNat < 10000 := by omega
    have hread := readNumber?_padded (w := 3) hsmall rest
    have hhead : ∃ c more, padded 4 y.toNat ++ rest = c :: more ∧ isDigit c = true := by
      cases hcs : padded 4 y.toNat with
      | nil => exact absurd hcs (padded_ne_nil 4 y.toNat)
      | cons c more =>
        exact ⟨c, more ++ rest, rfl, isDigit_of_mem_padded (hcs ▸ List.mem_cons_self)⟩
    obtain ⟨c, more, hcs, hc⟩ := hhead
    rw [readYear?, skipBlanks_padded]
    rw [hcs] at hread ⊢
    split
    · next he =>
      injection he with he
      exact absurd (he ▸ hc) (by decide)
    · next he =>
      injection he with he
      exact absurd (he ▸ hc) (by decide)
    · rw [hread]
      show some ((y.toNat : Int), rest) = some (y, rest)
      rw [Int.toNat_of_nonneg h.1]
  · by_cases hsign : y < 0
    · rw [if_pos hsign, readYear?, List.cons_append, skipBlanks_eq_self (by simp [isBlank])]
      show (readLongNumber? (padded 4 y.natAbs ++ rest)).map _ = _
      rw [readLongNumber?_padded 4 _ hrest, Option.map_some]
      simp only [Option.some.injEq, Prod.mk.injEq, and_true]
      omega
    · rw [if_neg hsign, readYear?, List.cons_append, skipBlanks_eq_self (by simp [isBlank])]
      show (readLongNumber? (padded 4 y.natAbs ++ rest)).map _ = _
      rw [readLongNumber?_padded 4 _ hrest, Option.map_some]
      simp only [Option.some.injEq, Prod.mk.injEq, and_true]
      omega

theorem readDate?_text {d : Date} (h : d.Real) (rest : List Char) :
    readDate? (yearText d.year ++ '-' :: (padded 2 d.month ++ '-' :: (padded 2 d.day ++ rest))) =
      some (d, rest) := by
  obtain ⟨hm, hm', hd, hd'⟩ := h
  have hday : d.day ≤ 31 := by
    unfold daysInMonth at hd'
    grind
  have hyear (cs : List Char) := readYear?_yearText d.year
    (show EndsDigits ('-' :: cs) from endsDigits_cons (by decide))
  have hmark (cs : List Char) := readMark?_cons (c := '-') (by decide) cs
  have hmonth (cs : List Char) := readPart?_padded hm hm' (by omega) cs
  have hdayPart := readPart?_padded hd hday (by omega) rest
  simp only [readDate?, hyear, hmark, hmonth, hdayPart, Option.bind_eq_bind, Option.bind_some]

/-! ## Times of day -/

theorem readFraction?_padded {w : Nat} (hw : w < 9) (h : n < Nat.pow 10 (w + 1))
    (hrest : EndsDigits rest) : readFraction? ('.' :: (padded (w + 1) n ++ rest)) =
      some (n * Nat.pow 10 (9 - (w + 1)), rest) := by
  have hdigits : ∀ c ∈ padded (w + 1) n, isDigit c = true := fun c => isDigit_of_mem_padded
  have hlength := length_padded h
  have hends : EndsDigits (rest.take (9 - (w + 1))) := by
    intro c hc
    rw [List.head?_take] at hc
    split at hc
    · cases hc
    · exact hrest c hc
  have htake : ((padded (w + 1) n ++ rest).take 9).takeWhile isDigit = padded (w + 1) n := by
    rw [List.take_append, List.take_of_length_le (by omega), hlength, takeWhile_digits hdigits hends]
  rw [readFraction?, htake, if_neg (padded_ne_nil (w + 1) n), digitsValue_padded, hlength,
    dropWhile_digits hdigits hrest]

/-- The fraction of a second is read back from any of its lengths. -/
theorem readFraction?_text (h : n < 1000000000) (rest : List Char) :
    readFraction? (fractionText n ++ 'Z' :: rest) = some (n, 'Z' :: rest) := by
  have hends : EndsDigits ('Z' :: rest) := endsDigits_cons (by decide)
  unfold fractionText
  split
  · next hzero =>
    rw [hzero]
    rfl
  split
  · rw [List.cons_append, readFraction?_padded (w := 2) (by decide)
      (show n / 1000000 < 1000 by omega) hends]
    show some (n / 1000000 * 1000000, _) = _
    rw [Nat.div_mul_cancel (Nat.dvd_of_mod_eq_zero (by assumption))]
  split
  · rw [List.cons_append, readFraction?_padded (w := 5) (by decide)
      (show n / 1000 < 1000000 by omega) hends]
    show some (n / 1000 * 1000, _) = _
    rw [Nat.div_mul_cancel (Nat.dvd_of_mod_eq_zero (by assumption))]
  · rw [List.cons_append, readFraction?_padded (w := 8) (by decide) h hends]
    show some (n * 1, _) = _
    rw [Nat.mul_one]

/-- A time of day is read back, in the last second of a minute with a leap second. -/
theorem readTime?_text {second nanos : Nat} (h : second < 86400) (hn : nanos < 2000000000)
    (hleap : 1000000000 ≤ nanos → second % 60 = 59) (rest : List Char) :
    readTime? (padded 2 (second / 3600) ++ ':' :: (padded 2 (second / 60 % 60) ++
      ':' :: (padded 2 (second % 60 + nanos / 1000000000) ++
        (fractionText (nanos % 1000000000) ++ 'Z' :: rest)))) = some (second, nanos, 'Z' :: rest) := by
  have hmark (cs : List Char) := readMark?_cons (c := ':') (by decide) cs
  have hhour (cs : List Char) := readPart?_padded (n := second / 3600) (Nat.zero_le _)
    (show _ ≤ 23 by omega) (by omega) cs
  have hminute (cs : List Char) := readPart?_padded (n := second / 60 % 60) (Nat.zero_le _)
    (show _ ≤ 59 by omega) (by omega) cs
  have hsecond (cs : List Char) := readPart?_padded (n := second % 60 + nanos / 1000000000)
    (Nat.zero_le _) (show _ ≤ 60 by omega) (by omega) cs
  have hfraction := readFraction?_text (Nat.mod_lt nanos (by decide : 0 < 1000000000)) rest
  simp only [readTime?, hmark, hhour, hminute, hsecond, hfraction, Option.bind_eq_bind,
    Option.bind_some, Option.some.injEq, Prod.mk.injEq, and_true]
  have hcarry : (second % 60 + nanos / 1000000000) / 60 = nanos / 1000000000 := by omega
  rw [hcarry]
  omega

/-! ## Instants -/

/-- An instant is read back from its text. -/
theorem Instant.ofText?_text (t : Instant) : Instant.ofText? t.text = some t := by
  have hreal := Date.ofDays_real (t.seconds / 86400)
  have hsecond : (t.seconds % 86400).toNat < 86400 := by omega
  have hleap : 1000000000 ≤ t.nanos → (t.seconds % 86400).toNat % 60 = 59 := by
    intro h
    have := t.leap h
    omega
  have hsum : (Date.ofDays (t.seconds / 86400)).toDays * 86400 + ((t.seconds % 86400).toNat : Int) =
      t.seconds := by
    rw [Date.toDays_ofDays]
    omega
  have hdate (cs : List Char) := readDate?_text hreal cs
  have htime := readTime?_text hsecond t.nanos_lt hleap []
  have hzone : readZone? (skipBlanks ['Z']) = some (0, []) := by decide
  simp only [Instant.ofText?, Instant.text, String.toList_ofList, Instant.chars, Instant.ofChars?,
    List.append_assoc, List.cons_append, hdate, htime, hzone, Option.bind_eq_bind,
    Option.bind_some, hsum, t.make?_self, Int.sub_zero]
  exact if_pos ⟨rfl, hreal, by decide, by decide⟩

end MailCampaign
