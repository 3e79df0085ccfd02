import MailCampaign.Journal.File
import MailCampaign.Proofs.Wire.Journal

/-!
# The lines of a journal

A written value has no control characters, so the line of an entry has no break before its end. A file
of such lines is cut at their ends, and each of them is read back as its entry.
-/

namespace MailCampaign

namespace Json

/-- A character that stands on a line. -/
def Printed (c : Char) : Prop := 32 ≤ c.toNat

theorem printed_hexChar (n : Nat) : Printed (hexChar n) := by
  have h : ∀ d < 16, Printed (hexChar d) := by
    unfold Printed
    decide
  have hmod : hexChar n = hexChar (n % 16) := by simp [hexChar]
  exact hmod ▸ h (n % 16) (Nat.mod_lt n (by decide))

theorem printed_charText (c : Char) : ∀ d ∈ charText c, Printed d := by
  have hescape : ∀ d ∈ ['\\', '"', 'b', 'f', 'n', 'r', 't', 'u', '0'], Printed d := by
    simp [Printed]
  have hhex := printed_hexChar
  unfold charText
  repeat' split
  all_goals
    simp only [List.mem_cons, List.not_mem_nil, or_false, forall_eq_or_imp, forall_eq] at hescape ⊢
  all_goals first
    | exact Nat.not_lt.1 (by assumption)
    | simp [hescape, hhex]

theorem printed_strText (s : String) : ∀ c ∈ strText s, Printed c := by
  have hquote : Printed '"' := by unfold Printed; decide
  intro c hc
  simp only [strText, List.mem_cons, List.mem_append, List.mem_flatMap, List.not_mem_nil, or_false] at hc
  rcases hc with rfl | ⟨d, -, hd⟩ | rfl
  · exact hquote
  · exact printed_charText d c hd
  · exact hquote

theorem printed_numeral (n : Nat) : ∀ c ∈ numeral n, Printed c := by
  intro c hc
  have hrange := isDigit_iff.1 (isDigit_of_mem_numeral hc)
  have hzero : 48 ≤ c.toNat := UInt32.le_iff_toNat_le.1 (Char.le_def.1 hrange.1)
  exact Nat.le_trans (by decide) hzero

theorem printed_intNumeral (i : Int) : ∀ c ∈ intNumeral i, Printed c := by
  have hminus : Printed '-' := by unfold Printed; decide
  intro c hc
  unfold intNumeral at hc
  split at hc
  · rcases List.mem_cons.1 hc with rfl | hc
    · exact hminus
    · exact printed_numeral _ c hc
  · exact printed_numeral _ c hc

mutual
/-- No character of a written value breaks the line. -/
theorem printed_chars : (j : Json) → ∀ c ∈ j.chars, Printed c
  | .null => by simp [chars, Printed]
  | .bool b => by cases b <;> simp [chars, Printed]
  | .int i => printed_intNumeral i
  | .real m e => by
    have hmark : Printed 'e' := by unfold Printed; decide
    simp only [chars, List.mem_append, List.mem_cons]
    rintro c (hc | rfl | hc)
    · exact printed_intNumeral m c hc
    · exact hmark
    · exact printed_intNumeral e c hc
  | .str s => printed_strText s
  | .arr items => by
    have hmarks : Printed '[' ∧ Printed ']' := by unfold Printed; decide
    have hitems := printed_itemsText items
    simp only [chars, List.mem_append, List.mem_cons, List.not_mem_nil, or_false]
    rintro c (rfl | hc | rfl)
    · exact hmarks.1
    · exact hitems c hc
    · exact hmarks.2
  | .obj fields => by
    have hmarks : Printed '\x7b' ∧ Printed '\x7d' := by unfold Printed; decide
    have hfields := printed_fieldsText fields
    simp only [chars, List.mem_append, List.mem_cons, List.not_mem_nil, or_false]
    rintro c (rfl | hc | rfl)
    · exact hmarks.1
    · exact hfields c hc
    · exact hmarks.2

theorem printed_itemsText : (l : List Json) → ∀ c ∈ itemsText l, Printed c
  | [] => by simp [itemsText]
  | [j] => printed_chars j
  | j :: j' :: rest => by
    have hcomma : Printed ',' := by unfold Printed; decide
    have hj := printed_chars j
    have hrest := printed_itemsText (j' :: rest)
    simp only [itemsText, List.mem_append, List.mem_cons]
    rintro c (hc | rfl | hc)
    · exact hj c hc
    · exact hcomma
    · exact hrest c hc

theorem printed_fieldsText : (l : List (String × Json)) → ∀ c ∈ fieldsText l, Printed c
  | [] => by simp [fieldsText]
  | [(k, j)] => by
    have hcolon : Printed ':' := by unfold Printed; decide
    have hj := printed_chars j
    simp only [fieldsText, List.mem_append, List.mem_cons]
    rintro c (hc | rfl | hc)
    · exact printed_strText k c hc
    · exact hcolon
    · exact hj c hc
  | (k, j) :: f :: rest => by
    have hmarks : Printed ':' ∧ Printed ',' := by unfold Printed; decide
    have hj := printed_chars j
    have hrest := printed_fieldsText (f :: rest)
    simp only [fieldsText, List.mem_append, List.mem_cons]
    rintro c (hc | rfl | hc | rfl | hc)
    · exact printed_strText k c hc
    · exact hmarks.1
    · exact hj c hc
    · exact hmarks.2
    · exact hrest c hc
end

/-- No byte of a written value is a control character. -/
theorem printed_bytes (j : Json) {b : UInt8} (h : b ∈ Utf8.bytes j.text) : 32 ≤ b.toNat := by
  by_cases hb : b.toNat < 128
  · obtain ⟨c, hc, he⟩ := Utf8.mem_bytes hb h
    rw [text, String.toList_ofList] at hc
    exact he ▸ printed_chars j c hc
  · omega

end Json

namespace Journal

variable {l : List UInt8} {s : String}

/-! ## Cutting -/

/-- A line is cut off at its end. -/
theorem cutLines_append {l : List UInt8} (h : 10 ∉ l) (rest : List UInt8) :
    cutLines (l ++ 10 :: rest) = l :: cutLines rest := by
  induction l with
  | nil => exact if_pos rfl
  | cons b l ih =>
    have hb : b ≠ 10 := fun he => h (he ▸ List.mem_cons_self)
    have hl : 10 ∉ l := fun hm => h (List.mem_cons_of_mem b hm)
    rw [List.cons_append, cutLines, if_neg hb, ih hl]

theorem chomp_of_notMem {l : List UInt8} (h : 13 ∉ l) : chomp l = l :=
  if_neg fun he => h (List.mem_of_getLast? he)

theorem cutLines_of_notMem (h : 10 ∉ l) (hne : l ≠ []) : cutLines l = [l] := by
  induction l with
  | nil => exact absurd rfl hne
  | cons b l ih =>
    have hb : b ≠ 10 := fun he => h (he ▸ List.mem_cons_self)
    rw [cutLines, if_neg hb]
    cases l with
    | nil => rfl
    | cons c l => rw [ih (fun hm => h (List.mem_cons_of_mem b hm)) (by simp)]

theorem cutLines_ne_nil (hne : l ≠ []) : cutLines l ≠ [] := by
  obtain ⟨b, l, rfl⟩ := List.exists_cons_of_ne_nil hne
  rw [cutLines]
  split
  · simp
  · split <;> simp

/-- Behind a line the lines of the rest follow. -/
theorem lines_line (h : 10 ∉ l ∧ 13 ∉ l) (rest : List UInt8) :
    lines (l ++ 10 :: rest) = l :: lines rest := by
  have hchomp : chomp l = l := chomp_of_notMem h.2
  rw [lines, cutLines_append h.1]
  cases rest with
  | nil => simp [lines, cutLines, hchomp]
  | cons b rest =>
    have hlast : (l ++ 10 :: b :: rest).getLast? = (b :: rest).getLast? := by
      rw [List.getLast?_append, List.getLast?_cons_cons, List.getLast?_cons, Option.some_or]
    have hne : cutLines (b :: rest) ≠ [] := cutLines_ne_nil (by simp)
    rw [lines, hlast]
    split
    · rw [List.map_cons, hchomp]
    · rw [List.dropLast_cons_of_ne_nil hne, List.map_cons, hchomp, List.cons_append,
        List.getLast?_cons_of_ne_nil hne]

/-! ## Entries -/

/-- A text on a line of its own is read before the rest. -/
theorem entries_line (h : 10 ∉ l ∧ 13 ∉ l) (hs : Utf8.text? l = some s) (rest : List UInt8) :
    entries (l ++ 10 :: rest) = (entries rest).map ((entryOf? s).toList ++ ·) := by
  rw [entries, entries, lines_line h, List.mapM_cons, hs]
  generalize (List.mapM _ (lines rest) : Except Fault (List String)) = texts
  cases texts with
  | error f => rfl
  | ok texts =>
    show Except.ok ((s :: texts).filterMap entryOf?) =
      Except.ok ((entryOf? s).toList ++ texts.filterMap entryOf?)
    rw [List.filterMap_cons]
    cases entryOf? s <;> rfl

/-- At the end of a file a text is read without the end of its line. -/
theorem entries_end (h : 10 ∉ l) (hne : l ≠ []) :
    entries l = match Utf8.text? l with
      | some s => .ok (entryOf? s).toList
      | none => .error .storage := by
  have hlast : l.getLast? ≠ some 10 := fun he => h (List.mem_of_getLast? he)
  have hlines : lines l = [l] := by
    rw [lines, cutLines_of_notMem h hne, if_neg hlast]
    rfl
  rw [entries, hlines, List.mapM_cons]
  cases Utf8.text? l with
  | none => rfl
  | some s =>
    show Except.ok ([s].filterMap entryOf?) = Except.ok (entryOf? s).toList
    rw [List.filterMap_cons]
    cases entryOf? s <;> rfl

theorem entryOf?_text (e : Entry) : entryOf? e.json.text = some e := by
  rw [entryOf?, Json.readText_text (n := 6) e.reads (by decide)]
  rfl

/-- The text of an entry has no break in it. -/
theorem text_unbroken (e : Entry) : 10 ∉ Utf8.bytes e.json.text ∧ 13 ∉ Utf8.bytes e.json.text :=
  ⟨fun hm => absurd (e.json.printed_bytes hm) (by decide),
    fun hm => absurd (e.json.printed_bytes hm) (by decide)⟩

/-- Bytes that are read as these entries, whatever follows them. -/
def Reads (b : List UInt8) (es : List Entry) : Prop :=
  ∀ rest, entries (b ++ rest) = (entries rest).map (es ++ ·)

theorem reads_nil : Reads [] [] := by
  intro rest
  cases h : entries rest <;> simp [h, Except.map]

theorem Reads.append {b b' : List UInt8} {es es' : List Entry} (h : Reads b es) (h' : Reads b' es') :
    Reads (b ++ b') (es ++ es') := by
  intro rest
  rw [List.append_assoc, h, h']
  cases entries rest <;> simp [Except.map]

theorem reads_line (e : Entry) : Reads (line e) [e] := by
  intro rest
  rw [line, List.append_assoc, List.singleton_append,
    entries_line (text_unbroken e) (Utf8.text?_bytes _), entryOf?_text]
  rfl

theorem reads_lines (es : List Entry) : Reads (es.flatMap line) es := by
  induction es with
  | nil => exact reads_nil
  | cons e es ih => exact (reads_line e).append ih

theorem Reads.entries {b : List UInt8} {es : List Entry} (h : Reads b es) : entries b = .ok es := by
  have hb := h []
  rw [List.append_nil] at hb
  rw [hb]
  show Except.ok (es ++ []) = _
  rw [List.append_nil]

/-- The entries that were written to a file are read from it. -/
theorem entries_lines (es : List Entry) : entries (es.flatMap line) = .ok es := (reads_lines es).entries

end Journal

end MailCampaign
