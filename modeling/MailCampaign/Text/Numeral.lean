import MailCampaign.Text.Ascii

/-!
# Decimal numerals

Whole numbers are written in decimal without leading zeros, or padded with zeros to a width, and
read digit by digit.
-/

namespace MailCampaign

/-- The decimal digits of a number, most significant first, before those already written. -/
def digitsOnto (n : Nat) (tail : List Char) : List Char :=
  if h : n < 10 then digitChar n :: tail
  else digitsOnto (n / 10) (digitChar (n % 10) :: tail)
termination_by n

/-- The decimal numeral of a number. -/
def numeral (n : Nat) : List Char := digitsOnto n []

/-- The decimal numeral of an integer. -/
def intNumeral (i : Int) : List Char :=
  if i < 0 then '-' :: numeral i.natAbs else numeral i.natAbs

/-- The numeral with zeros in front up to a width. -/
def padded (width n : Nat) : List Char :=
  let ds := numeral n
  List.replicate (width - ds.length) '0' ++ ds

/-- The decimal text of a number. -/
def natText (n : Nat) : String := String.ofList (numeral n)

/-- The decimal text of an integer. -/
def intText (i : Int) : String := String.ofList (intNumeral i)

/-- The number that a digit extends. -/
def readDigit (acc : Nat) (c : Char) : Nat := 10 * acc + (digit? c).getD 0

/-- The number that a run of decimal digits writes. -/
def digitsValue (cs : List Char) : Nat := cs.foldl readDigit 0

/-- A decimal digit. -/
def isDigit (c : Char) : Bool := (digit? c).isSome

/-- The number written by a text of decimal digits, at least one. -/
def natOfDigits? (cs : List Char) : Option Nat :=
  if cs ≠ [] ∧ cs.all isDigit then some (digitsValue cs) else none

theorem digitsOnto_append (n : Nat) (s t : List Char) :
    digitsOnto n (s ++ t) = digitsOnto n s ++ t := by
  fun_induction digitsOnto n s with
  | case1 n tail h => unfold digitsOnto; simp [h]
  | case2 n tail h ih => rw [digitsOnto]; simpa [h] using ih

theorem numeral_of_lt {n : Nat} (h : n < 10) : numeral n = [digitChar n] := by
  unfold numeral digitsOnto; simp [h]

theorem numeral_of_le {n : Nat} (h : 10 ≤ n) :
    numeral n = numeral (n / 10) ++ [digitChar (n % 10)] := by
  have h' : ¬ n < 10 := by omega
  rw [numeral, digitsOnto]
  simp only [h', dite_false]
  exact digitsOnto_append (n / 10) [] [digitChar (n % 10)]

/-- A numeral reads back as its number. -/
@[simp] theorem digitsValue_numeral (n : Nat) : digitsValue (numeral n) = n := by
  induction n using Nat.strongRecOn with
  | ind n ih =>
    by_cases h : n < 10
    · simp [numeral_of_lt h, digitsValue, readDigit, digit?_digitChar h]
    · have hd : n % 10 < 10 := by omega
      rw [numeral_of_le (by omega), digitsValue, List.foldl_append]
      have := ih (n / 10) (by omega)
      rw [digitsValue] at this
      simp only [this, List.foldl_cons, List.foldl_nil, readDigit, digit?_digitChar hd,
        Option.getD_some]
      omega

end MailCampaign
