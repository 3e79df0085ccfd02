import MailCampaign.Text.Utf8
import Mathlib.Data.List.Basic
import Mathlib.Tactic.SplitIfs

/-!
# Texts as bytes and back

The bytes of a text are those of its characters in turn. Both readers undo that: the strict one gives
the text, and the one that goes on behind bytes that are no text finds the characters and nothing
else. The byte of a line feed stands for that character alone. Cut between two characters the bytes of
a text are texts on both sides; cut through a character they are none before it.
-/

namespace MailCampaign.Utf8

/-- The bytes of a character. -/
abbrev encode (c : Char) : List UInt8 := String.utf8EncodeChar c

theorem toList_loop (b : ByteArray) (i : Nat) (r : List UInt8) :
    ByteArray.toList.loop b i r = r.reverse ++ b.data.toList.drop i := by
  induction i, r using ByteArray.toList.loop.induct b with
  | case1 i r h ih =>
    have hlt : i < b.data.toList.length := by simpa using h
    have hget : b.get! i = b.data.toList[i] := by
      show b.data[i]! = _
      rw [getElem!_pos b.data i h, Array.getElem_toList]
    rw [ByteArray.toList.loop, if_pos h, ih, List.drop_eq_getElem_cons hlt, hget]
    simp
  | case2 i r h =>
    have hge : b.data.toList.length ≤ i := by simpa using h
    rw [ByteArray.toList.loop, if_neg h, List.drop_eq_nil_of_le hge, List.append_nil]

theorem toList_eq (b : ByteArray) : b.toList = b.data.toList := toList_loop b 0 []

theorem bytes_eq (s : String) : bytes s = s.toList.flatMap encode := by
  have hs : s.toUTF8 = s.toList.utf8Encode := by
    conv_lhs => rw [← String.ofList_toList (s := s)]
    exact String.toByteArray_ofList
  rw [bytes, toList_eq, hs]
  exact List.toList_data_toByteArray

/-- The bytes of a text are read back as the text. -/
theorem text?_bytes (s : String) : text? (bytes s) = some s := by
  have hs : (⟨(bytes s).toArray⟩ : ByteArray) = s.toUTF8 := by
    rw [bytes, toList_eq]
  rw [text?, hs]
  exact dif_pos s.isValidUTF8

/-! ## Pieces -/

/-- A byte behind the first one of a character, with six bits of the code point. -/
def tailByte (x : Nat) : UInt8 := UInt8.ofNat (x % 64 + 128)

theorem toNat_byte {n : Nat} (h : n < 256) : (UInt8.ofNat n).toNat = n := by
  rw [UInt8.toNat_ofNat']
  omega

theorem toNat_tailByte (x : Nat) : (tailByte x).toNat = x % 64 + 128 := toNat_byte (by omega)

theorem gather_tailByte (n acc x : Nat) (rest : List UInt8) :
    gather (n + 1) acc (tailByte x :: rest) = gather n (acc * 64 + x % 64) rest := by
  have hcontinues : continues (tailByte x).toNat = true := by
    rw [toNat_tailByte]
    simp [continues]
    omega
  rw [gather, if_pos hcontinues, toNat_tailByte]
  congr 2
  omega

theorem follows_of {first second : Nat} (h : 0x80 ≤ second ∧ second ≤ 0xBF)
    (h3 : (first = 0xE0 → 0xA0 ≤ second) ∧ (first = 0xED → second ≤ 0x9F))
    (h4 : (first = 0xF0 → 0x90 ≤ second) ∧ (first = 0xF4 → second ≤ 0x8F)) :
    follows first second = true := by
  rw [follows, Bool.and_eq_true, decide_eq_true_eq, decide_eq_true_eq]
  unfold secondRange
  split_ifs <;> omega

/-- A first byte and the bytes behind it are read as the character of the code point they hold. -/
theorem readAfter_of_gather {first n x v : Nat} {bs rest : List UInt8}
    (hexpected : expected? first = some (n + 1))
    (hfollows : follows first (x % 64 + 128) = true)
    (hgather : gather (n + 1) (firstBits first (n + 1)) (tailByte x :: bs) =
      (v, true, rest)) :
    readAfter first (tailByte x :: bs) = (some (Char.ofNat v), rest) := by
  simp [readAfter, hexpected, toNat_tailByte, hfollows, hgather]

/-- A code point lies outside the surrogates and in range. -/
theorem codePoint_cases (c : Char) :
    c.toNat < 0xD800 ∨ 0xDFFF < c.toNat ∧ c.toNat < 0x110000 := c.valid

/-- Behind the first byte of a character that character is read. -/
theorem readAfter_encode (c : Char) (rest : List UInt8) :
    ∃ b bs, encode c = b :: bs ∧ readAfter b.toNat (bs ++ rest) = (some c, rest) := by
  have hc := codePoint_cases c
  have hof : Char.ofNat c.toNat = c := Char.ofNat_toNat c
  have hcode : c.val.toNat = c.toNat := rfl
  generalize c.toNat = v at hc hof hcode
  unfold encode String.utf8EncodeChar
  simp only [hcode]
  split
  · refine ⟨_, [], rfl, ?_⟩
    have hexpected : expected? v = some 0 := if_pos (by omega)
    rw [toNat_byte (by omega)]
    simp [readAfter, hexpected, gather, firstBits, hof]
  · split
    · refine ⟨_, [tailByte v], rfl, ?_⟩
      rw [toNat_byte (by omega), ← hof]
      refine readAfter_of_gather (n := 0) ?_ ?_ ?_
      · rw [expected?, if_neg (by omega), if_pos (by omega)]
      · exact follows_of (by omega) (by omega) (by omega)
      · show gather 1 _ (tailByte v :: rest) = _
        rw [gather_tailByte, gather, firstBits, Prod.mk.injEq]
        refine ⟨?_, rfl⟩
        omega
    · split
      · refine ⟨_, [tailByte (v / 64), tailByte v], rfl, ?_⟩
        rw [toNat_byte (by omega), ← hof]
        refine readAfter_of_gather (n := 1) ?_ ?_ ?_
        · rw [expected?, if_neg (by omega), if_neg (by omega), if_pos (by omega)]
        · exact follows_of (by omega) (by omega) (by omega)
        · show gather 2 _ (tailByte (v / 64) :: tailByte v :: rest) = _
          rw [gather_tailByte, gather_tailByte, gather, firstBits, Prod.mk.injEq]
          refine ⟨?_, rfl⟩
          omega
      · refine ⟨_, [tailByte (v / 4096), tailByte (v / 64), tailByte v], rfl, ?_⟩
        rw [toNat_byte (by omega), ← hof]
        refine readAfter_of_gather (n := 2) ?_ ?_ ?_
        · rw [expected?, if_neg (by omega), if_neg (by omega), if_neg (by omega),
            if_pos (by omega)]
        · exact follows_of (by omega) (by omega) (by omega)
        · show gather 3 _ (tailByte (v / 4096) :: tailByte (v / 64) :: tailByte v :: rest) = _
          have hbits : firstBits (v / 262144 % 8 + 240) 3 = (v / 262144 % 8 + 240) % 8 := rfl
          rw [gather_tailByte, gather_tailByte, gather_tailByte, gather, hbits, Prod.mk.injEq]
          refine ⟨?_, rfl⟩
          omega

/-- In the bytes of characters those characters are found and nothing else. -/
theorem readPieces_encode (cs : List Char) {n : Nat} (h : (cs.flatMap encode).length ≤ n) :
    readPieces n (cs.flatMap encode) = cs.map some := by
  induction cs generalizing n with
  | nil => cases n <;> rfl
  | cons c rest ih =>
    obtain ⟨b, bs, hbytes, hread⟩ := readAfter_encode c (rest.flatMap encode)
    rw [List.flatMap_cons, hbytes] at h ⊢
    simp only [List.cons_append, List.length_cons, List.length_append] at h
    obtain ⟨m, rfl⟩ : ∃ m, n = m + 1 := ⟨n - 1, by omega⟩
    simp only [List.cons_append, readPieces, hread, List.map_cons]
    rw [ih (by omega)]

theorem pieces_bytes (s : String) : pieces (bytes s) = s.toList.map some := by
  rw [pieces, bytes_eq]
  exact readPieces_encode s.toList (Nat.le_refl _)

/-! ## Line feeds -/

/-- The byte of an ASCII character stands in no other character. -/
theorem mem_encode {c : Char} {b : UInt8} (hb : b.toNat < 128) (h : b ∈ encode c) :
    c.toNat = b.toNat := by
  have hcode : c.val.toNat = c.toNat := rfl
  unfold encode String.utf8EncodeChar at h
  simp only [hcode] at h
  have hlow : ∀ n, 128 ≤ n → n < 256 → b ≠ UInt8.ofNat n := by
    intro n hn hn' he
    rw [he, toNat_byte hn'] at hb
    omega
  split at h
  · rw [List.mem_singleton.1 h, toNat_byte (by omega)]
  · split at h
    · simp only [List.mem_cons, List.not_mem_nil, or_false] at h
      rcases h with h | h
      · exact absurd h (hlow _ (by omega) (by omega))
      · exact absurd h (hlow _ (by omega) (by omega))
    · split at h
      · simp only [List.mem_cons, List.not_mem_nil, or_false] at h
        rcases h with h | h | h
        · exact absurd h (hlow _ (by omega) (by omega))
        · exact absurd h (hlow _ (by omega) (by omega))
        · exact absurd h (hlow _ (by omega) (by omega))
      · simp only [List.mem_cons, List.not_mem_nil, or_false] at h
        rcases h with h | h | h | h
        · exact absurd h (hlow _ (by omega) (by omega))
        · exact absurd h (hlow _ (by omega) (by omega))
        · exact absurd h (hlow _ (by omega) (by omega))
        · exact absurd h (hlow _ (by omega) (by omega))

/-- The byte of an ASCII character is in the bytes of a text only for that character. -/
theorem mem_bytes {s : String} {b : UInt8} (hb : b.toNat < 128) (h : b ∈ bytes s) :
    ∃ c ∈ s.toList, c.toNat = b.toNat := by
  rw [bytes_eq] at h
  obtain ⟨c, hc, hmem⟩ := List.mem_flatMap.1 h
  exact ⟨c, hc, mem_encode hb hmem⟩

/-! ## Cutting -/

theorem bytes_ofList (cs : List Char) : bytes (String.ofList cs) = cs.flatMap encode := by
  rw [bytes_eq, String.toList_ofList]

/-- Bytes that are a text are the bytes of that text. -/
theorem bytes_of_text? {b : List UInt8} {s : String} (h : text? b = some s) : bytes s = b := by
  unfold text? String.fromUTF8? at h
  split at h
  · obtain rfl := Option.some.inj h
    rw [bytes, toList_eq]
    rfl
  · cases h

/-- Only the bytes behind the first one of a character go on a character. -/
theorem continues_encode (c : Char) : ∃ b bs, encode c = b :: bs ∧ continues b.toNat = false ∧
    ∀ x ∈ bs, continues x.toNat = true := by
  have hc := codePoint_cases c
  have hcode : c.val.toNat = c.toNat := rfl
  generalize c.toNat = v at hc hcode
  have htail (x : Nat) : continues (tailByte x).toNat = true := by
    rw [toNat_tailByte]
    simp [continues]
    omega
  have hfirst {n : Nat} (hn : n < 128 ∨ 191 < n ∧ n < 256) : continues (UInt8.ofNat n).toNat = false := by
    rw [toNat_byte (by omega)]
    simp [continues]
    omega
  unfold encode String.utf8EncodeChar
  simp only [hcode]
  split
  · exact ⟨_, [], rfl, hfirst (by omega), by simp⟩
  split
  · exact ⟨_, [tailByte v], rfl, hfirst (by omega), by simp [htail]⟩
  split
  · exact ⟨_, [tailByte (v / 64), tailByte v], rfl, hfirst (by omega), by simp [htail]⟩
  · exact ⟨_, [tailByte (v / 4096), tailByte (v / 64), tailByte v], rfl, hfirst (by omega),
      by simp [htail]⟩

/-- No character starts with the bytes of another one. -/
theorem prefix_of_encode {cs ds : List Char} (h : cs.flatMap encode <+: ds.flatMap encode) : cs <+: ds := by
  induction cs generalizing ds with
  | nil => exact List.nil_prefix
  | cons c cs ih =>
    obtain ⟨tail, htail⟩ := h
    obtain ⟨b, bs, hbytes, hread⟩ := readAfter_encode c (cs.flatMap encode ++ tail)
    cases ds with
    | nil => simp [hbytes] at htail
    | cons d ds =>
      obtain ⟨b', bs', hbytes', hread'⟩ := readAfter_encode d (ds.flatMap encode)
      simp only [List.flatMap_cons, hbytes, hbytes', List.cons_append, List.append_assoc,
        List.cons.injEq] at htail
      obtain ⟨rfl, htail⟩ := htail
      rw [htail, hread', Prod.mk.injEq, Option.some.injEq] at hread
      obtain ⟨rfl, hrest⟩ := hread
      obtain ⟨more, rfl⟩ := ih ⟨tail, hrest.symm⟩
      exact ⟨more, rfl⟩

/-- A cut behind that many bytes goes through a character. -/
def Splits (b : List UInt8) (k : Nat) : Prop := ∃ x ∈ b[k]?, continues x.toNat = true

instance (b : List UInt8) (k : Nat) : Decidable (Splits b k) := by
  unfold Splits
  infer_instance

theorem splits_append_left {b c : List UInt8} {k : Nat} (h : k < b.length) :
    Splits (b ++ c) k ↔ Splits b k := by
  rw [Splits, Splits, List.getElem?_append_left h]

theorem splits_append_right {b c : List UInt8} {k : Nat} :
    Splits (b ++ c) (b.length + k) ↔ Splits c k := by
  rw [Splits, Splits, List.getElem?_append_right (Nat.le_add_right _ _), Nat.add_sub_cancel_left]

/-- A cut between characters leaves characters on both sides. -/
theorem exists_take_eq {cs : List Char} {k : Nat} (h : ¬Splits (cs.flatMap encode) k) :
    ∃ p q, cs = p ++ q ∧ (cs.flatMap encode).take k = p.flatMap encode := by
  induction cs generalizing k with
  | nil => exact ⟨[], [], rfl, by simp⟩
  | cons c cs ih =>
    obtain ⟨b, bs, hbytes, -, htail⟩ := continues_encode c
    cases k with
    | zero => exact ⟨[], c :: cs, rfl, rfl⟩
    | succ k =>
      rw [List.flatMap_cons, hbytes, Splits, List.cons_append, List.getElem?_cons_succ] at h
      have hk : bs.length ≤ k := by
        by_contra hlt
        rw [List.getElem?_append_left (by omega), List.getElem?_eq_getElem (by omega)] at h
        exact h ⟨_, rfl, htail _ (List.getElem_mem _)⟩
      rw [List.getElem?_append_right hk] at h
      obtain ⟨p, q, rfl, htake⟩ := ih h
      refine ⟨c :: p, q, rfl, ?_⟩
      rw [List.flatMap_cons, List.flatMap_cons, hbytes, List.cons_append, List.take_succ_cons,
        List.take_append, List.take_of_length_le hk, htake, List.cons_append]

/-- A cut through a character leaves no text. -/
theorem text?_take_of_splits {cs : List Char} {k : Nat} (h : Splits (cs.flatMap encode) k) :
    text? ((cs.flatMap encode).take k) = none := by
  obtain ⟨x, hx, hcontinues⟩ := h
  obtain ⟨hlt, -⟩ := List.getElem?_eq_some_iff.1 hx
  rw [Option.eq_none_iff_forall_ne_some]
  intro s hs
  have hbytes := bytes_of_text? hs
  rw [bytes_eq] at hbytes
  obtain ⟨q, rfl⟩ := prefix_of_encode (hbytes ▸ List.take_prefix _ _)
  have hlength : (s.toList.flatMap encode).length = k := by
    rw [hbytes, List.length_take]
    omega
  -- The byte behind the cut is the first one of a character.
  rw [List.flatMap_append, Option.mem_def, List.getElem?_append_right (Nat.le_of_eq hlength),
    hlength, Nat.sub_self] at hx
  cases q with
  | nil => cases hx
  | cons d q =>
    obtain ⟨b, bs, hd, hfirst, -⟩ := continues_encode d
    rw [List.flatMap_cons, hd] at hx
    obtain rfl := Option.some.inj hx
    exact absurd hcontinues (by simp [hfirst])
end MailCampaign.Utf8
