import MailCampaign.Text.Numeral
import Mathlib.Data.List.Basic

/-!
# Numerals and what stands behind them

A numeral is a run of digits without a zero in front, and a padded one has at least its width, so a
reader that stops at the first character that is no digit finds where it ends.
-/

namespace MailCampaign

theorem isDigit_iff {c : Char} : isDigit c = true ↔ '0' ≤ c ∧ c ≤ '9' := by
  unfold isDigit digit?
  split <;> simp_all

theorem isDigit_digitChar {n : Nat} (h : n < 10) : isDigit (digitChar n) = true := by
  rw [isDigit, digit?_digitChar h]
  rfl

theorem digitChar_ne_zero {n : Nat} (h : n < 10) (hn : n ≠ 0) : digitChar n ≠ '0' := by
  revert n
  decide

/-- A numeral consists of digits. -/
theorem isDigit_of_mem_numeral {n : Nat} {c : Char} (h : c ∈ numeral n) : isDigit c = true := by
  induction n using Nat.strongRecOn with
  | ind n ih =>
    by_cases hn : n < 10
    · rw [numeral_of_lt hn, List.mem_singleton] at h
      rw [h]
      exact isDigit_digitChar hn
    · rw [numeral_of_le (by omega), List.mem_append, List.mem_singleton] at h
      rcases h with h | rfl
      · exact ih (n / 10) (by omega) h
      · exact isDigit_digitChar (by omega)

theorem numeral_ne_nil (n : Nat) : numeral n ≠ [] := by
  by_cases hn : n < 10
  · simp [numeral_of_lt hn]
  · simp [numeral_of_le (by omega : 10 ≤ n)]

/-- A numeral does not start with a zero, unless it is that of zero. -/
theorem head?_numeral {n : Nat} (hn : n ≠ 0) : (numeral n).head? ≠ some '0' := by
  induction n using Nat.strongRecOn with
  | ind n ih =>
    by_cases hlt : n < 10
    · rw [numeral_of_lt hlt]
      simpa using digitChar_ne_zero hlt hn
    · rw [numeral_of_le (by omega), List.head?_append_of_ne_nil _ (numeral_ne_nil _)]
      exact ih (n / 10) (by omega) (by omega)

theorem numeral_zero : numeral 0 = ['0'] := by decide +kernel

/-- A number below a power of ten has that many digits at most. -/
theorem length_numeral_le {n : Nat} (w : Nat) (h : n < Nat.pow 10 (w + 1)) :
    (numeral n).length ≤ w + 1 := by
  induction w generalizing n with
  | zero =>
    rw [numeral_of_lt (by simpa using h)]
    simp
  | succ w ih =>
    by_cases hn : n < 10
    · simp [numeral_of_lt hn]
    · have hpow : Nat.pow 10 (w + 1 + 1) = Nat.pow 10 (w + 1) * 10 := rfl
      rw [hpow] at h
      have hrest := ih (n := n / 10) (by omega)
      rw [numeral_of_le (by omega), List.length_append, List.length_singleton]
      omega

/-! ## Padding -/

theorem isDigit_of_mem_padded {width n : Nat} {c : Char} (h : c ∈ padded width n) :
    isDigit c = true := by
  rw [padded, List.mem_append, List.mem_replicate] at h
  rcases h with ⟨-, rfl⟩ | h
  · decide
  · exact isDigit_of_mem_numeral h

theorem padded_ne_nil (width n : Nat) : padded width n ≠ [] := by
  simp [padded, numeral_ne_nil]

/-- A padded numeral of a number with no more digits has its width. -/
theorem length_padded {width n : Nat} (h : n < Nat.pow 10 (width + 1)) :
    (padded (width + 1) n).length = width + 1 := by
  have hlength := length_numeral_le width h
  rw [padded, List.length_append, List.length_replicate]
  omega

theorem digitsValue_replicate_append (k : Nat) (cs : List Char) :
    digitsValue (List.replicate k '0' ++ cs) = digitsValue cs := by
  induction k with
  | zero => rfl
  | succ k ih => exact ih

/-- A padded numeral reads back as its number. -/
@[simp] theorem digitsValue_padded (width n : Nat) : digitsValue (padded width n) = n := by
  rw [padded, digitsValue_replicate_append, digitsValue_numeral]

/-! ## What follows -/

/-- A text that does not start with a digit. -/
def EndsDigits (rest : List Char) : Prop := ∀ c, rest.head? = some c → isDigit c = false

theorem endsDigits_nil : EndsDigits [] := by
  intro c h
  cases h

theorem endsDigits_cons {c : Char} {rest : List Char} (h : isDigit c = false) :
    EndsDigits (c :: rest) := by
  intro d hd
  simp only [List.head?_cons, Option.some.injEq] at hd
  exact hd ▸ h

theorem takeWhile_digits {ds rest : List Char} (h : ∀ c ∈ ds, isDigit c = true)
    (hrest : EndsDigits rest) : (ds ++ rest).takeWhile isDigit = ds := by
  rw [List.takeWhile_append_of_pos h]
  cases rest with
  | nil => simp
  | cons c rest => simp [hrest c rfl]

theorem dropWhile_digits {ds rest : List Char} (h : ∀ c ∈ ds, isDigit c = true)
    (hrest : EndsDigits rest) : (ds ++ rest).dropWhile isDigit = rest := by
  rw [List.dropWhile_append_of_pos h]
  cases rest with
  | nil => rfl
  | cons c rest => simp [hrest c rfl]

end MailCampaign
