/-!
# ASCII letters and digits

Labels, hexadecimal digits and names of settings are compared in ASCII lower case; digits are the
ten ASCII digits.
-/

namespace MailCampaign

/-- The lower-case form of an ASCII capital; any other character is kept. -/
def lowerAscii (c : Char) : Char :=
  if 'A' ≤ c ∧ c ≤ 'Z' then Char.ofNat (c.toNat + 32) else c

/-- The text with its ASCII capitals in lower case. -/
def lowerText (s : String) : String := String.ofList (s.toList.map lowerAscii)

/-- The value of a decimal digit. -/
def digit? (c : Char) : Option Nat :=
  if '0' ≤ c ∧ c ≤ '9' then some (c.toNat - 48) else none

/-- The value of a hexadecimal digit of either case. -/
def hexDigit? (c : Char) : Option Nat :=
  if '0' ≤ c ∧ c ≤ '9' then some (c.toNat - 48)
  else if 'a' ≤ c ∧ c ≤ 'f' then some (c.toNat - 87)
  else if 'A' ≤ c ∧ c ≤ 'F' then some (c.toNat - 55)
  else none

/-- The decimal digit of a value below ten. -/
def digitChar (n : Nat) : Char := Char.ofNat (48 + n % 10)

/-- The lower-case hexadecimal digit of a value below sixteen. -/
def hexChar (n : Nat) : Char :=
  let d := n % 16
  if d < 10 then Char.ofNat (48 + d) else Char.ofNat (87 + d)

theorem digit?_digitChar {n : Nat} (h : n < 10) : digit? (digitChar n) = some n := by
  revert n; decide

theorem hexDigit?_hexChar {n : Nat} (h : n < 16) : hexDigit? (hexChar n) = some n := by
  revert n; decide

end MailCampaign
