import MailCampaign.Json.Parse
import MailCampaign.Proofs.Json.Tokens

/-!
# Reading the tokens of values

The machine reads the tokens of a value as that value and goes on behind them. So the text of a legible
value holds the value and nothing else, as text and as bytes.
-/

namespace MailCampaign

namespace Json

variable {expect : Expect} {stack outer : List Frame} {rest : List Token}

/-- Goes on after a value with the container around it. -/
def delivered (j : Source) (rest : List Token) : List Frame → Source × List Token
  | [] => (j, rest)
  | f :: stack => parse rest (f.add j :: stack) .more

/-- A place where a value may stand. -/
inductive Expect.Value : Expect → Prop
  | value : Value .value
  | firstItem : Value .firstItem

/-- A place where a name may stand. -/
inductive Expect.Name : Expect → Prop
  | name : Name .name
  | firstName : Name .firstName

/-- Whether the machine reads the tokens of a value as that value wherever one may stand. -/
def Parses (j : Json) : Prop :=
  ∀ rest stack expect, expect.Value →
    parse (tokensOf j ++ rest) stack expect = delivered (.ofJson j) rest stack

theorem parse_string (s : String) (he : expect.Value) :
    parse (.string (some s) :: rest) stack expect = delivered (.str s) rest stack := by
  cases he <;> cases stack <;> rfl

theorem parse_literal (j : Source) (he : expect.Value) :
    parse (.literal j :: rest) stack expect = delivered j rest stack := by
  cases he <;> cases stack <;> rfl

/-- Items are read one after another up to the end of their array. -/
theorem parse_items {items : List Json} (h : ∀ j ∈ items, j.Parses) (hne : items ≠ [])
    (acc : List Source) (he : expect.Value) :
    parse (itemTokens items ++ .closeArr :: rest) (.arr acc :: outer) expect =
      delivered (.arr (acc.reverse ++ Source.ofJsonItems items)) rest outer := by
  induction items generalizing acc expect with
  | nil => exact absurd rfl hne
  | cons j more ih =>
    cases more with
    | nil =>
      rw [itemTokens, h j List.mem_cons_self _ _ _ he]
      cases outer <;> simp [delivered, Frame.add, parse, Frame.close, Source.ofJsonItems]
    | cons j' more =>
      have hmore := ih (fun i hi => h i (List.mem_cons_of_mem j hi)) (by simp)
        (Source.ofJson j :: acc) .value
      rw [itemTokens, List.append_assoc, h j List.mem_cons_self _ _ _ he, List.cons_append]
      · simpa [delivered, Frame.add, parse, Source.ofJsonItems] using hmore
      · simp

/-- Fields are read one after another up to the end of their object. -/
theorem parse_fields {fields : List (String × Json)} (h : ∀ f ∈ fields, f.2.Parses)
    (hne : fields ≠ []) (acc : List (Option String × Source)) (he : expect.Name) :
    parse (fieldTokens fields ++ .closeObj :: rest) (.obj acc none :: outer) expect =
      delivered (.obj (acc.reverse ++ Source.ofJsonFields fields)) rest outer := by
  induction fields generalizing acc expect with
  | nil => exact absurd rfl hne
  | cons f more ih =>
    obtain ⟨k, j⟩ := f
    have hname : ∀ tail, parse (.string (some k) :: .colon :: tail) (.obj acc none :: outer) expect =
        parse tail (.obj acc (some k) :: outer) .value := by
      intro tail
      cases he <;> rfl
    have hj := fun rest => h (k, j) List.mem_cons_self rest (.obj acc (some k) :: outer) .value .value
    cases more with
    | nil =>
      rw [fieldTokens, List.cons_append, List.cons_append, hname, hj]
      cases outer <;> simp [delivered, Frame.add, parse, Frame.close, Source.ofJsonFields]
    | cons f' more =>
      have hmore := ih (fun i hi => h i (List.mem_cons_of_mem (k, j) hi)) (by simp)
        ((some k, Source.ofJson j) :: acc) .name
      rw [fieldTokens, List.cons_append, List.cons_append, hname, List.append_assoc, hj,
        List.cons_append]
      · simpa [delivered, Frame.add, parse, Source.ofJsonFields] using hmore
      · simp

theorem parses_arr {items : List Json} (h : ∀ j ∈ items, j.Parses) : (Json.arr items).Parses := by
  intro rest stack expect he
  have hopen : ∀ tail, parse (.openArr :: tail) stack expect = parse tail (.arr [] :: stack) .firstItem := by
    intro tail
    cases he <;> rfl
  rw [tokensOf, List.cons_append, hopen, List.append_assoc, List.singleton_append, Source.ofJson]
  by_cases hne : items = []
  · subst hne
    cases stack <;> rfl
  · exact parse_items h hne [] .firstItem

theorem parses_obj {fields : List (String × Json)} (h : ∀ f ∈ fields, f.2.Parses) :
    (Json.obj fields).Parses := by
  intro rest stack expect he
  have hopen : ∀ tail, parse (.openObj :: tail) stack expect =
      parse tail (.obj [] none :: stack) .firstName := by
    intro tail
    cases he <;> rfl
  rw [tokensOf, List.cons_append, hopen, List.append_assoc, List.singleton_append, Source.ofJson]
  by_cases hne : fields = []
  · subst hne
    cases stack <;> rfl
  · exact parse_fields h hne [] .firstName

/-- The tokens of a legible value are read as that value. -/
theorem Legible.parses {n : Nat} {j : Json} (h : Legible n j) : j.Parses := by
  induction h with
  | null => exact fun _ _ _ he => parse_literal _ he
  | bool b => exact fun _ _ _ he => parse_literal _ he
  | int => exact fun _ _ _ he => parse_literal _ he
  | str s => exact fun _ _ _ he => parse_string s he
  | arr _ ih => exact parses_arr ih
  | obj _ ih => exact parses_obj ih

end Json

namespace Source

variable {n : Nat} {j : Json}

theorem ofPieces_chars (h : j.Legible n) : ofPieces (j.chars.map some) = (ofJson j, false) := by
  have hparse := h.parses [] [] .value .value
  rw [List.append_nil] at hparse
  rw [ofPieces, Json.tokens_chars h, hparse]
  rfl

/-- The text of a legible value holds that value and nothing else. -/
theorem ofText_text (h : j.Legible n) : ofText j.text = (ofJson j, false) := by
  rw [ofText, Json.text, String.toList_ofList]
  exact ofPieces_chars h

/-- So do the bytes of the text. -/
theorem ofBytes_text (h : j.Legible n) : ofBytes (Utf8.bytes j.text) = (ofJson j, false) := by
  rw [ofBytes, Utf8.pieces_bytes, Json.text, String.toList_ofList]
  exact ofPieces_chars h

end Source

end MailCampaign
