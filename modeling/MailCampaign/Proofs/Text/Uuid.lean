import MailCampaign.Proofs.Json.Tokens
import MailCampaign.Uuid

/-!
# Identifiers as text

The groups of an identifier are the digits of its number cut apart, so reading them one after another
gives the number back.
-/

namespace MailCampaign.Uuid

theorem length_hexDigits (n v : Nat) : (hexDigits n v).length = n := by
  induction n generalizing v with
  | zero => rfl
  | succ n ih => rw [hexDigits, List.length_append, ih, List.length_singleton]

theorem shiftRight_div_sixteen (v k : Nat) : (v / 16) >>> k = v >>> (k + 4) := by
  have hfour : v / 16 = v >>> 4 := (Nat.shiftRight_eq_div_pow v 4).symm
  rw [hfour, ← Nat.shiftRight_add, Nat.add_comm 4 k]

/-- The digits of a number are those of its upper part and then the last ones. -/
theorem hexDigits_add (m n v : Nat) :
    hexDigits (m + n) v = hexDigits m (v >>> (4 * n)) ++ hexDigits n v := by
  induction n generalizing v with
  | zero => simp [hexDigits]
  | succ n ih =>
    rw [← Nat.add_assoc, hexDigits, ih, shiftRight_div_sixteen, hexDigits, List.append_assoc]
    rfl

theorem hexValue?_concat (cs : List Char) (c : Char) :
    hexValue? (cs ++ [c]) =
      (hexValue? cs).bind fun v => (hexDigit? c).bind fun d => some (16 * v + d) := by
  rw [hexValue?, List.foldl_append]
  rfl

theorem hexValue?_hexDigits {n v : Nat} (h : v >>> (4 * n) = 0) :
    hexValue? (hexDigits n v) = some v := by
  induction n generalizing v with
  | zero =>
    have hv : v = 0 := by simpa using h
    rw [hv]
    rfl
  | succ n ih =>
    have hupper : (v / 16) >>> (4 * n) = 0 := by
      rw [shiftRight_div_sixteen]
      exact h
    rw [hexDigits, hexValue?_concat, ih hupper, Json.hexDigit?_hexChar_mod]
    show some (16 * (v / 16) + v % 16) = some v
    rw [Nat.div_add_mod]

/-- Groups of 8, 4, 4, 4 and 12 digits with hyphens between them are read as one number. -/
theorem ofHyphenated?_groups {a b c d e : List Char} (ha : a.length = 8) (hb : b.length = 4)
    (hc : c.length = 4) (hd : d.length = 4) (he : e.length = 12) :
    ofHyphenated? (a ++ '-' :: b ++ '-' :: c ++ '-' :: d ++ '-' :: e) =
      hexValue? (a ++ b ++ c ++ d ++ e) := by
  simp [ofHyphenated?, ha, hb, hc, hd, he, List.drop_append, List.drop_eq_nil_of_le]

/-- An identifier is read back from its text. -/
theorem ofText?_text (u : Uuid) : ofText? u.text = some u := by
  have hsmall : u.value.val >>> (4 * 32) = 0 := by
    rw [Nat.shiftRight_eq_div_pow]
    exact Nat.div_eq_of_lt u.value.isLt
  have hlength : u.chars.length = 36 := by simp [chars, length_hexDigits]
  have hdigits (v : Nat) : hexDigits 8 (v >>> 96) ++ hexDigits 4 (v >>> 80) ++ hexDigits 4 (v >>> 64) ++
      hexDigits 4 (v >>> 48) ++ hexDigits 12 v = hexDigits 32 v := by
    rw [hexDigits_add 20 12 v, hexDigits_add 16 4 (v >>> 48), hexDigits_add 12 4 (v >>> 48 >>> 16),
      hexDigits_add 8 4 (v >>> 48 >>> 16 >>> 16)]
    simp only [← Nat.shiftRight_add]
  have hhyphenated : ofHyphenated? u.chars = some u.value.val := by
    rw [chars, ofHyphenated?_groups (length_hexDigits ..) (length_hexDigits ..) (length_hexDigits ..)
      (length_hexDigits ..) (length_hexDigits ..), hdigits, hexValue?_hexDigits hsmall]
  have hplain : ofPlain? u.chars = none := if_neg (by omega)
  rw [ofText?, text, String.toList_ofList, ofChars?, hplain, hhyphenated]
  exact congrArg some (congrArg Uuid.mk (Fin.ofNat_val_eq_self u.value))

end MailCampaign.Uuid
