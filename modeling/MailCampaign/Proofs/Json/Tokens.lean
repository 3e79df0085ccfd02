import MailCampaign.Json.Print
import MailCampaign.Json.Token
import MailCampaign.Proofs.Text.Numeral
import MailCampaign.Proofs.Text.Utf8

/-!
# The tokens of written values

A value is legible when its numbers are natural numbers of 64 bits and its containers do not stand too
deep inside one another. The text of a legible value is cut into the tokens of the value: a word ends by
itself, a string with its quote, and a number before the mark that follows it.
-/

namespace MailCampaign.Json

/-- A value that is written and read back exactly, with at most that many containers inside one
another. -/
inductive Legible : Nat → Json → Prop
  | null {n : Nat} : Legible n .null
  | bool {n : Nat} (b : Bool) : Legible n (.bool b)
  | int {n : Nat} {i : Int} : 0 ≤ i → i < UInt64.size → Legible n (.int i)
  | str {n : Nat} (s : String) : Legible n (.str s)
  | arr {n : Nat} {items : List Json} : (∀ j ∈ items, Legible n j) → Legible (n + 1) (.arr items)
  | obj {n : Nat} {fields : List (String × Json)} : (∀ f ∈ fields, Legible n f.2) →
      Legible (n + 1) (.obj fields)

mutual
/-- The tokens of a value. -/
def tokensOf : Json → List Token
  | .null => [.literal .null]
  | .bool b => [.literal (.bool b)]
  | .int i => [.literal (.int i)]
  | .real m e => [.literal (.real m e)]
  | .str s => [.string (some s)]
  | .arr items => .openArr :: (itemTokens items ++ [.closeArr])
  | .obj fields => .openObj :: (fieldTokens fields ++ [.closeObj])

/-- The tokens of values with commas between them. -/
def itemTokens : List Json → List Token
  | [] => []
  | [j] => tokensOf j
  | j :: rest => tokensOf j ++ .comma :: itemTokens rest

/-- The tokens of fields with commas between them. -/
def fieldTokens : List (String × Json) → List Token
  | [] => []
  | [(k, j)] => .string (some k) :: .colon :: tokensOf j
  | (k, j) :: rest => .string (some k) :: .colon :: (tokensOf j ++ .comma :: fieldTokens rest)
end

/-! ## Numbers -/

theorem le_readDigit (s : Nat) (c : Char) : s ≤ readDigit s c := by
  rw [readDigit]
  omega

theorem le_foldl_readDigit (s : Nat) (cs : List Char) : s ≤ cs.foldl readDigit s := by
  induction cs generalizing s with
  | nil => exact Nat.le_refl s
  | cons c rest ih => exact Nat.le_trans (le_readDigit s c) (ih _)

/-- Digits are all taken as long as they stay in 64 bits. -/
theorem addDigits_eq {s : Nat} {cs : List Char} (h : cs.foldl readDigit s < UInt64.size) :
    addDigits s cs = (cs.foldl readDigit s, 0) := by
  induction cs generalizing s with
  | nil => rfl
  | cons c rest ih =>
    have hstep : readDigit s c < UInt64.size := Nat.lt_of_le_of_lt (le_foldl_readDigit _ rest) h
    rw [addDigits, if_pos hstep]
    exact ih h

theorem number?_numeral {n : Nat} (h : n < UInt64.size) : number? (numeral n) = some (.int n) := by
  have hdigits : ∀ c ∈ numeral n, isDigit c = true := fun c => isDigit_of_mem_numeral
  have hvalue : (numeral n).foldl readDigit 0 = n := digitsValue_numeral n
  have hsign : number? (numeral n) = magnitude? false (numeral n) := by
    cases hcs : numeral n with
    | nil => exact absurd hcs (numeral_ne_nil n)
    | cons c rest =>
      have hc : isDigit c = true := hdigits c (by simp [hcs])
      have hne : c ≠ '-' := by
        rintro rfl
        exact absurd hc (by decide)
      unfold number?
      split
      · next he =>
        injection he with he
        exact absurd he hne
      · rfl
  have hwhole : (numeral n).takeWhile isDigit = numeral n := by
    simpa using takeWhile_digits hdigits endsDigits_nil
  have hnothing : (numeral n).dropWhile isDigit = [] := by
    simpa using dropWhile_digits hdigits endsDigits_nil
  have hzero : ¬(numeral n = [] ∨ (numeral n).head? = some '0' ∧ numeral n ≠ ['0']) := by
    rintro (hnil | ⟨hhead, hne⟩)
    · exact numeral_ne_nil n hnil
    · by_cases hn : n = 0
      · rw [hn] at hne
        exact hne numeral_zero
      · exact head?_numeral hn hhead
  rw [hsign, magnitude?, hwhole, hnothing]
  dsimp only
  rw [if_neg hzero, wholeSource, addDigits_eq (hvalue.symm ▸ h), hvalue]
  rfl

theorem numberToken_intNumeral {i : Int} (h : 0 ≤ i) (hi : i < UInt64.size) :
    numberToken (intNumeral i) = .literal (.int i) := by
  obtain ⟨n, rfl⟩ := Int.eq_ofNat_of_zero_le h
  have hn : n < UInt64.size := by omega
  rw [intNumeral, if_neg (by omega), Int.natAbs_natCast, numberToken, number?_numeral hn]

/-! ## Cutting -/

variable {cut : Cut} {toks : List Token} {c : Char} {t : Token}

/-- The tokens read so far, last first, when the last of them may be a number that is still open. -/
def Cut.Holds (cut : Cut) (toks : List Token) : Prop :=
  cut = ⟨toks, .gap⟩ ∨
    ∃ older cs, cut = ⟨older, .number cs⟩ ∧ toks = numberToken cs.reverse :: older

theorem Cut.Holds.finish (h : cut.Holds toks) : cut.finish = toks.reverse := by
  rcases h with rfl | ⟨older, cs, rfl, rfl⟩
  · rfl
  · rfl

theorem mark?_cases (h : mark? c = some t) :
    c = '[' ∨ c = ']' ∨ c = '\x7b' ∨ c = '\x7d' ∨ c = ',' ∨ c = ':' := by
  unfold mark? at h
  split at h <;> simp_all

theorem Cut.outside_mark (toks : List Token) (h : mark? c = some t) :
    Cut.outside toks c = ⟨t :: toks, .gap⟩ := by
  rcases mark?_cases h with rfl | rfl | rfl | rfl | rfl | rfl <;> cases h <;> rfl

theorem extendsNumber_mark (cs : List Char) (h : mark? c = some t) : extendsNumber cs c = false := by
  rcases mark?_cases h with rfl | rfl | rfl | rfl | rfl | rfl <;> rfl

/-- A mark ends what was read before it. -/
theorem Cut.Holds.mark (h : cut.Holds toks) (hc : mark? c = some t) :
    cut.next c = ⟨t :: toks, .gap⟩ := by
  rcases h with rfl | ⟨older, cs, rfl, rfl⟩
  · exact Cut.outside_mark toks hc
  · show (if extendsNumber cs c then _ else _) = _
    rw [extendsNumber_mark cs hc]
    exact Cut.outside_mark _ hc

theorem Cut.outside_digit (toks : List Token) (h : isDigit c = true) :
    Cut.outside toks c = ⟨toks, .number [c]⟩ := by
  have hspace : isSpace c = false := by
    rw [Bool.eq_false_iff]
    intro hs
    simp only [isSpace, Bool.or_eq_true, beq_iff_eq] at hs
    rcases hs with ((rfl | rfl) | rfl) | rfl <;> exact absurd h (by decide)
  have hquote : c ≠ '"' := by
    rintro rfl
    exact absurd h (by decide)
  rw [Cut.outside, if_neg (by simp [hspace]), if_neg hquote, if_pos (.inr h)]

theorem foldl_digits (toks : List Token) (cs : List Char) {ds : List Char}
    (h : ∀ c ∈ ds, isDigit c = true) :
    ds.foldl Cut.next ⟨toks, .number cs⟩ = ⟨toks, .number (ds.reverse ++ cs)⟩ := by
  induction ds generalizing cs with
  | nil => rfl
  | cons d rest ih =>
    have hd : extendsNumber cs d = true := by simp [extendsNumber, h d List.mem_cons_self]
    have hstep : Cut.next ⟨toks, .number cs⟩ d = ⟨toks, .number (d :: cs)⟩ := if_pos hd
    rw [List.foldl_cons, hstep, ih _ fun c hc => h c (List.mem_cons_of_mem d hc)]
    simp

theorem foldl_intNumeral (toks : List Token) {i : Int} (h : 0 ≤ i) (hi : i < UInt64.size) :
    ((intNumeral i).foldl Cut.next ⟨toks, .gap⟩).Holds (.literal (.int i) :: toks) := by
  have hdigits : ∀ c ∈ intNumeral i, isDigit c = true := by
    rw [intNumeral, if_neg (by omega)]
    exact fun c => isDigit_of_mem_numeral
  have htoken := numberToken_intNumeral h hi
  cases hcs : intNumeral i with
  | nil =>
    rw [intNumeral, if_neg (by omega)] at hcs
    exact absurd hcs (numeral_ne_nil _)
  | cons d rest =>
    rw [hcs] at hdigits htoken
    have hfirst : Cut.next ⟨toks, .gap⟩ d = ⟨toks, .number [d]⟩ :=
      Cut.outside_digit toks (hdigits d List.mem_cons_self)
    rw [List.foldl_cons, hfirst, foldl_digits toks [d] fun c hc => hdigits c (List.mem_cons_of_mem d hc)]
    exact .inr ⟨toks, _, rfl, by simp [htoken]⟩

/-! ## Strings -/

theorem hexDigit?_hexChar_mod (n : Nat) : hexDigit? (hexChar n) = some (n % 16) := by
  have hmod : hexChar n = hexChar (n % 16) := by simp [hexChar]
  rw [hmod, hexDigit?_hexChar (by omega)]

/-- A character of a string literal is read back as itself. -/
theorem foldl_charText (toks : List Token) (points : List Nat) (c : Char) :
    (charText c).foldl Cut.next ⟨toks, .string points⟩ = ⟨toks, .string (c.toNat :: points)⟩ := by
  have hletter : ∀ {c : Char} {n : Nat}, c.toNat = n → c = Char.ofNat n := by
    rintro c n rfl
    exact (Char.ofNat_toNat c).symm
  unfold charText
  split
  · next h => rw [h]; rfl
  split
  · next h => rw [h]; rfl
  split
  · next h => rw [hletter h]; rfl
  split
  · next h => rw [hletter h]; rfl
  split
  · next h => rw [h]; rfl
  split
  · next h => rw [h]; rfl
  split
  · next h => rw [h]; rfl
  split
  · next h =>
    have hzero : hexDigit? '0' = some 0 := by decide
    simp [Cut.next, hzero, hexDigit?_hexChar_mod]
    omega
  · next hquote hback _ _ _ _ _ hcontrol => simp [Cut.next, hquote, hback, hcontrol]

theorem foldl_flatMap_charText (toks : List Token) (points : List Nat) (cs : List Char) :
    (cs.flatMap charText).foldl Cut.next ⟨toks, .string points⟩ =
      ⟨toks, .string ((cs.map Char.toNat).reverse ++ points)⟩ := by
  induction cs generalizing points with
  | nil => rfl
  | cons c rest ih =>
    rw [List.flatMap_cons, List.foldl_append, foldl_charText, ih]
    simp

/-- The code points of characters have no surrogate halves among them. -/
theorem joinHalves?_map (cs : List Char) : joinHalves? (cs.map Char.toNat) = some cs := by
  induction cs with
  | nil => rfl
  | cons c rest ih =>
    have hc := Utf8.codePoint_cases c
    have hhigh : highHalf c.toNat = false := by
      simp only [highHalf, Bool.and_eq_false_iff, decide_eq_false_iff_not]
      omega
    have hlow : lowHalf c.toNat = false := by
      simp only [lowHalf, Bool.and_eq_false_iff, decide_eq_false_iff_not]
      omega
    have hpoint : ¬ noPoint ≤ c.toNat := by
      rw [noPoint]
      omega
    rw [List.map_cons, joinHalves?.eq_def]
    simp [hhigh, hlow, hpoint, ih]

theorem foldl_strText (toks : List Token) (s : String) :
    (strText s).foldl Cut.next ⟨toks, .gap⟩ = ⟨.string (some s) :: toks, .gap⟩ := by
  have hopen : Cut.next ⟨toks, .gap⟩ '"' = ⟨toks, .string []⟩ := rfl
  have htoken : stringToken (s.toList.map Char.toNat) = .string (some s) := by
    rw [stringToken, joinHalves?_map, Option.map_some, String.ofList_toList]
  rw [strText, List.foldl_cons, hopen, List.foldl_append, foldl_flatMap_charText, List.append_nil]
  show (⟨stringToken ((s.toList.map Char.toNat).reverse).reverse :: toks, .gap⟩ : Cut) = _
  rw [List.reverse_reverse, htoken]

/-! ## Values -/

/-- Items are cut into their tokens if each of them is. -/
theorem holds_items {items : List Json}
    (h : ∀ j ∈ items, ∀ toks,
      (j.chars.foldl Cut.next ⟨toks, .gap⟩).Holds ((tokensOf j).reverse ++ toks))
    (toks : List Token) :
    ((itemsText items).foldl Cut.next ⟨toks, .gap⟩).Holds ((itemTokens items).reverse ++ toks) := by
  induction items generalizing toks with
  | nil => exact .inl rfl
  | cons j rest ih =>
    have hj := h j List.mem_cons_self toks
    cases rest with
    | nil => simpa [itemsText, itemTokens] using hj
    | cons j' more =>
      have hmore := ih (fun i hi => h i (List.mem_cons_of_mem j hi))
        (.comma :: ((tokensOf j).reverse ++ toks))
      rw [itemsText, List.foldl_append, List.foldl_cons, hj.mark (t := .comma) rfl]
      · simpa [itemTokens] using hmore
      · simp

theorem holds_fields {fields : List (String × Json)}
    (h : ∀ f ∈ fields, ∀ toks,
      (f.2.chars.foldl Cut.next ⟨toks, .gap⟩).Holds ((tokensOf f.2).reverse ++ toks))
    (toks : List Token) :
    ((fieldsText fields).foldl Cut.next ⟨toks, .gap⟩).Holds ((fieldTokens fields).reverse ++ toks) := by
  induction fields generalizing toks with
  | nil => exact .inl rfl
  | cons f rest ih =>
    obtain ⟨k, j⟩ := f
    have hj := h (k, j) List.mem_cons_self (.colon :: .string (some k) :: toks)
    have hname : (strText k ++ [':']).foldl Cut.next ⟨toks, .gap⟩ =
        ⟨.colon :: .string (some k) :: toks, .gap⟩ := by
      rw [List.foldl_append, foldl_strText]
      rfl
    cases rest with
    | nil =>
      have htext : fieldsText [(k, j)] = (strText k ++ [':']) ++ j.chars := by simp [fieldsText]
      rw [htext, List.foldl_append, hname]
      simpa [fieldTokens] using hj
    | cons f' more =>
      have hmore := ih (fun i hi => h i (List.mem_cons_of_mem (k, j) hi))
        (.comma :: ((tokensOf j).reverse ++ .colon :: .string (some k) :: toks))
      have htext : fieldsText ((k, j) :: f' :: more) =
          (strText k ++ [':']) ++ (j.chars ++ ',' :: fieldsText (f' :: more)) := by
        simp [fieldsText]
      rw [htext, List.foldl_append, hname, List.foldl_append, List.foldl_cons,
        hj.mark (t := .comma) rfl]
      simpa [fieldTokens] using hmore

/-- The text of a legible value is cut into the tokens of the value. -/
theorem Legible.holds {n : Nat} {j : Json} (h : Legible n j) (toks : List Token) :
    (j.chars.foldl Cut.next ⟨toks, .gap⟩).Holds ((tokensOf j).reverse ++ toks) := by
  induction h generalizing toks with
  | null => exact .inl rfl
  | bool b => cases b <;> exact .inl rfl
  | int hi hi' => simpa [chars, tokensOf] using foldl_intNumeral toks hi hi'
  | str s =>
    rw [chars, foldl_strText]
    exact .inl rfl
  | arr _ ih =>
    have hopen : Cut.next ⟨toks, .gap⟩ '[' = ⟨.openArr :: toks, .gap⟩ := rfl
    rw [chars, List.foldl_cons, hopen, List.foldl_append, List.foldl_cons,
      (holds_items ih (.openArr :: toks)).mark (t := .closeArr) rfl]
    exact .inl (by simp [tokensOf])
  | obj _ ih =>
    have hopen : Cut.next ⟨toks, .gap⟩ '\x7b' = ⟨.openObj :: toks, .gap⟩ := rfl
    rw [chars, List.foldl_cons, hopen, List.foldl_append, List.foldl_cons,
      (holds_fields ih (.openObj :: toks)).mark (t := .closeObj) rfl]
    exact .inl (by simp [tokensOf])

/-- The tokens of a text without pieces are those of its characters. -/
theorem tokens_map_some (cs : List Char) :
    tokens (cs.map some) = (cs.foldl Cut.next ⟨[], .gap⟩).finish := by
  rw [tokens, List.foldl_map]
  rfl

theorem tokens_chars {n : Nat} {j : Json} (h : Legible n j) :
    tokens (j.chars.map some) = tokensOf j := by
  rw [tokens_map_some, (h.holds []).finish]
  simp

end MailCampaign.Json
