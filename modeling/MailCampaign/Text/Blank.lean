/-!
# Blank text

The blank characters are those with the Unicode property `White_Space`. Identifiers, message ids and
keys that hold nothing else count as missing, and labels are read without the blanks around them.
-/

namespace MailCampaign

/-- A character with the Unicode property `White_Space`. -/
def isBlank (c : Char) : Bool :=
  (0x9 ≤ c.val && c.val ≤ 0xD) || c.val == 0x20 || c.val == 0x85 || c.val == 0xA0 ||
    c.val == 0x1680 || (0x2000 ≤ c.val && c.val ≤ 0x200A) || c.val == 0x2028 || c.val == 0x2029 ||
    c.val == 0x202F || c.val == 0x205F || c.val == 0x3000

/-- The characters that remain after the leading blanks. -/
def skipBlanks (cs : List Char) : List Char := cs.dropWhile isBlank

/-- The characters without the blanks at either end. -/
def trimChars (cs : List Char) : List Char :=
  (skipBlanks (skipBlanks cs).reverse).reverse

/-- The text without the blanks at either end. -/
def trim (s : String) : String := String.ofList (trimChars s.toList)

/-- A text of blanks only, the empty text included. -/
def blankText (s : String) : Bool := s.toList.all isBlank

@[simp] theorem skipBlanks_nil : skipBlanks [] = [] := rfl

/-- What remains does not start with a blank. -/
theorem head_skipBlanks {cs : List Char} {c : Char} (h : (skipBlanks cs).head? = some c) :
    isBlank c = false := by
  induction cs with
  | nil => simp at h
  | cons d cs ih =>
    by_cases hd : isBlank d
    · exact ih (by simpa [skipBlanks, hd] using h)
    · simp [skipBlanks, hd] at h
      subst h
      simpa using hd

/-- A text without leading blanks is kept. -/
theorem skipBlanks_eq_self {cs : List Char} (h : ∀ c ∈ cs.head?, isBlank c = false) :
    skipBlanks cs = cs := by
  cases cs with
  | nil => rfl
  | cons c cs =>
    have := h c (by simp)
    simp [skipBlanks, this]

end MailCampaign
