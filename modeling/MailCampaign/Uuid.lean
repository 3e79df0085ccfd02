import MailCampaign.Text.Ascii

/-!
# Universally unique identifiers

Campaigns, flow versions and cursors are named by 128-bit identifiers. They are written in lower
case with hyphens, and read in either case: with hyphens, without them, with hyphens in braces, or
with hyphens after `urn:uuid:`, in either case as well. Their order is that of their numbers, hence
of their bytes.
-/

namespace MailCampaign

/-- A 128-bit identifier. -/
structure Uuid where
  value : Fin 0x100000000000000000000000000000000
deriving DecidableEq

namespace Uuid

instance : Inhabited Uuid := ⟨⟨0⟩⟩
instance : LT Uuid := ⟨fun a b => a.value < b.value⟩
instance : LE Uuid := ⟨fun a b => a.value ≤ b.value⟩
instance (a b : Uuid) : Decidable (a < b) := inferInstanceAs (Decidable (a.value < b.value))
instance (a b : Uuid) : Decidable (a ≤ b) := inferInstanceAs (Decidable (a.value ≤ b.value))

/-- The identifier whose bits are all zero. -/
def nil : Uuid := ⟨0⟩

/-- The identifier of a number, which counts modulo 2 ^ 128. -/
def ofNat (n : Nat) : Uuid := ⟨Fin.ofNat 0x100000000000000000000000000000000 n⟩

/-- The last `n` hexadecimal digits of a number. -/
def hexDigits : Nat → Nat → List Char
  | 0, _ => []
  | n + 1, v => hexDigits n (v / 16) ++ [hexChar v]

/-- The characters of an identifier: 8, 4, 4, 4 and 12 digits joined by hyphens. -/
def chars (u : Uuid) : List Char :=
  let v := u.value.val
  hexDigits 8 (v >>> 96) ++ '-' :: hexDigits 4 (v >>> 80) ++ '-' :: hexDigits 4 (v >>> 64) ++
    '-' :: hexDigits 4 (v >>> 48) ++ '-' :: hexDigits 12 v

def text (u : Uuid) : String := String.ofList u.chars

/-- The number written by hexadecimal digits alone. -/
def hexValue? (cs : List Char) : Option Nat :=
  cs.foldl (fun acc c => do some (16 * (← acc) + (← hexDigit? c))) (some 0)

/-- The number of an identifier of 32 digits without hyphens. -/
def ofPlain? (cs : List Char) : Option Nat :=
  if cs.length = 32 then hexValue? cs else none

/-- The number of an identifier with hyphens after 8, 12, 16 and 20 of its 32 digits. -/
def ofHyphenated? (cs : List Char) : Option Nat :=
  let hyphen (i : Nat) : Bool := cs[i]? == some '-'
  if cs.length = 36 ∧ hyphen 8 ∧ hyphen 13 ∧ hyphen 18 ∧ hyphen 23 then
    hexValue? (cs.take 8 ++ (cs.drop 9).take 4 ++ (cs.drop 14).take 4 ++ (cs.drop 19).take 4 ++
      cs.drop 24)
  else none

/-- What stands between braces. -/
def unbraced? : List Char → Option (List Char)
  | '\x7b' :: rest => if rest.getLast? = some '\x7d' then some rest.dropLast else none
  | _ => none

/-- What follows `urn:uuid:` in either case. -/
def afterUrn? (cs : List Char) : Option (List Char) :=
  if (cs.take 9).map lowerAscii = ['u', 'r', 'n', ':', 'u', 'u', 'i', 'd', ':'] then
    some (cs.drop 9)
  else none

/-- Reads an identifier from characters. -/
def ofChars? (cs : List Char) : Option Uuid :=
  ((ofPlain? cs).or <| (ofHyphenated? cs).or <|
    ((unbraced? cs).bind ofHyphenated?).or ((afterUrn? cs).bind ofHyphenated?)).map ofNat

/-- Reads an identifier. -/
def ofText? (s : String) : Option Uuid := ofChars? s.toList

example : ofText? "URN:uuid:00000000-0000-0000-0000-000000000001" = some ⟨1⟩ := by decide +kernel
example : (ofText? "0000000000000000000000000000000A").map chars =
    some "00000000-0000-0000-0000-00000000000a".toList := by decide +kernel

end Uuid

end MailCampaign
