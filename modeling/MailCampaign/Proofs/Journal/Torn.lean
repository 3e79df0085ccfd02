import MailCampaign.Proofs.Journal.Files
import MailCampaign.Proofs.Json.Torn

/-!
# A torn journal

A crash while an entry is written leaves a file that ends with a part of its line.

1. A part of the text of an entry is no entry, and neither is such a part with another entry behind it on
   the line (`entryOf?_torn`, `entryOf?_joined`).
2. So a file that is cut between two characters is read as the entries whose texts are complete. Cut
   through a character it is not read at all (`entries_take`).
3. The same holds of the journal on a disk whose live file is cut (`Disk.Stores.replay_torn`).
-/

namespace MailCampaign

namespace Journal

variable {s : String} {e : Entry}

/-! ## Parts of entries -/

theorem keepable_of_decoder {room : Nat} {j : Source} (h : Entry.decoder (.text room) j = .value e) :
    j.keepable room = true := by
  by_contra hj
  cases j with
  | arr items =>
    have hfault : Entry.decoder (.text room) (.arr items) = .fault .malformed := if_neg hj
    cases hfault.symm.trans h
  | obj fields =>
    have hfault : Entry.decoder (.text room) (.obj fields) = .fault .malformed := if_neg hj
    cases hfault.symm.trans h
  | null | bool | int | real | str | unreadable | torn => cases h

/-- Only a text that is kept, with nothing behind it, is an entry. -/
theorem exists_keepable (h : entryOf? s = some e) :
    ∃ j, Source.ofText s = (j, false) ∧ j.keepable 127 = true := by
  rw [entryOf?, Json.readText, Json.readWhole] at h
  cases hd : Entry.decoder .start (Source.ofText s).1 with
  | fault f =>
    rw [hd] at h
    cases h
  | value a =>
    rw [hd, Reading.value_bind] at h
    split at h
    · cases h
    · next hrest => exact ⟨_, Prod.ext rfl (by simpa using hrest), keepable_of_decoder hd⟩

theorem entryOf?_faulty {cs : List Char} (h : Json.Faulty (cs.foldl Json.Cut.next ⟨[], .gap⟩).finish) :
    entryOf? (String.ofList cs) = none := by
  rw [Option.eq_none_iff_forall_ne_some]
  intro e he
  obtain ⟨j, htext, hj⟩ := exists_keepable he
  exact Source.not_faulty htext hj h

/-- The characters of an entry are those of an object whose first name is `kind`. -/
theorem exists_chars (e : Entry) :
    ∃ more, (Json.obj (("kind", .str e.kind) :: e.fields)).chars = '\x7b' :: '"' :: 'k' :: more := by
  cases he : e.fields <;> exact ⟨_, rfl⟩

/-- A part of the text of an entry is no entry. -/
theorem entryOf?_torn {p r : List Char} (hp : p ++ r = e.json.chars) (hr : r ≠ []) :
    entryOf? (String.ofList p) = none := by
  have hlegible := e.legible (n := 0)
  rw [e.json_eq] at hp hlegible
  by_cases hne : p = []
  · subst hne
    rfl
  · exact entryOf?_faulty (Json.unfinished_of_torn hlegible hp hne hr).finish

/-- Neither is a part of the text of an entry with another entry behind it. -/
theorem entryOf?_joined {p r : List Char} (hp : p ++ r = e.json.chars) (hne : p ≠ []) (e' : Entry) :
    entryOf? (String.ofList (p ++ e'.json.chars)) = none := by
  have hlegible := e.legible (n := 0)
  have hlegible' := e'.legible (n := 0)
  obtain ⟨more, hmore⟩ := exists_chars e'
  rw [e.json_eq] at hp hlegible
  rw [e'.json_eq] at hlegible' ⊢
  by_cases hr : r = []
  · -- The whole text is an entry, and there is other text behind it.
    subst hr
    rw [List.append_nil] at hp
    rw [Option.eq_none_iff_forall_ne_some]
    intro a ha
    obtain ⟨j, htext, -⟩ := exists_keepable ha
    have htwo := Source.ofText_two hlegible hlegible'
    rw [← hp, htext] at htwo
    cases htwo
  · refine entryOf?_faulty ?_
    rw [List.foldl_append]
    exact (Json.unfinished_of_torn hlegible hp hne hr).object hlegible' hmore

/-! ## A file that is cut -/

/-- The entries whose texts lie within the first bytes of their file. -/
def within : Nat → List Entry → List Entry
  | _, [] => []
  | b, e :: rest =>
    if (Utf8.bytes e.json.text).length ≤ b then e :: within (b - (line e).length) rest else []

theorem bytes_text (e : Entry) : Utf8.bytes e.json.text = e.json.chars.flatMap Utf8.encode :=
  Utf8.bytes_ofList e.json.chars

/-- The text of an entry starts with a brace. -/
theorem exists_bytes (e : Entry) : ∃ more, Utf8.bytes e.json.text = 123 :: more := by
  obtain ⟨more, hmore⟩ := exists_chars e
  rw [bytes_text, e.json_eq, hmore]
  exact ⟨_, rfl⟩

theorem within_zero (es : List Entry) : within 0 es = [] := by
  cases es with
  | nil => rfl
  | cons e rest =>
    obtain ⟨more, hmore⟩ := exists_bytes e
    exact if_neg (by simp [hmore])

/-- A text that is cut between two characters is read if it is complete, and passed over otherwise. -/
theorem entries_part (e : Entry) {k : Nat} (hk : 0 < k) (hle : k ≤ (Utf8.bytes e.json.text).length) :
    entries ((Utf8.bytes e.json.text).take k) =
      if Utf8.Splits (Utf8.bytes e.json.text) k then .error .storage
      else .ok (if k = (Utf8.bytes e.json.text).length then [e] else []) := by
  have hbreak : 10 ∉ (Utf8.bytes e.json.text).take k :=
    fun hm => (text_unbroken e).1 (List.mem_of_mem_take hm)
  have hne : (Utf8.bytes e.json.text).take k ≠ [] := by
    obtain ⟨more, hmore⟩ := exists_bytes e
    obtain ⟨k, rfl⟩ := Nat.exists_eq_add_of_lt hk
    simp [hmore]
  rw [entries_end hbreak hne]
  rw [bytes_text] at hle ⊢
  split_ifs with hsplit hwhole
  · rw [Utf8.text?_take_of_splits hsplit]
  · rw [hwhole, List.take_length, ← bytes_text, Utf8.text?_bytes]
    show Except.ok (entryOf? e.json.text).toList = _
    rw [entryOf?_text]
    rfl
  · obtain ⟨p, q, hpq, htake⟩ := Utf8.exists_take_eq hsplit
    have hq : q ≠ [] := by
      rintro rfl
      rw [List.append_nil] at hpq
      have hlength := congrArg List.length htake
      rw [← hpq, List.length_take] at hlength
      omega
    rw [htake, ← Utf8.bytes_ofList, Utf8.text?_bytes]
    show Except.ok (entryOf? (String.ofList p)).toList = _
    rw [entryOf?_torn hpq.symm hq]
    rfl

/-- A file that is cut is read as the entries whose texts are complete, unless the cut goes through a
character. -/
theorem entries_take (es : List Entry) (b : Nat) :
    entries ((es.flatMap line).take b) =
      if Utf8.Splits (es.flatMap line) b then .error .storage else .ok (within b es) := by
  induction es generalizing b with
  | nil =>
    rw [List.flatMap_nil, if_neg (by simp [Utf8.Splits]), List.take_nil]
    rfl
  | cons e rest ih =>
    have hlength : (line e).length = (Utf8.bytes e.json.text).length + 1 := by simp [line]
    rw [List.flatMap_cons]
    by_cases hb : (Utf8.bytes e.json.text).length < b
    · -- The cut is behind the line.
      obtain ⟨c, rfl⟩ : ∃ c, b = (line e).length + c := ⟨b - (line e).length, by omega⟩
      have hwithin : within ((line e).length + c) (e :: rest) = e :: within c rest := by
        rw [within, if_pos (by omega), Nat.add_sub_cancel_left]
      rw [List.take_length_add_append, reads_line e, ih, hwithin]
      simp only [Utf8.splits_append_right]
      split <;> rfl
    · rw [line, List.append_assoc, List.take_append_of_le_length (by omega)]
      rcases Nat.eq_zero_or_pos b with rfl | hpos
      · obtain ⟨more, hmore⟩ := exists_bytes e
        rw [within_zero, hmore, if_neg (by simp [Utf8.Splits, Utf8.continues])]
        rfl
      · -- The cut is in the text or right behind it.
        have hsplits : Utf8.Splits (Utf8.bytes e.json.text ++ ([10] ++ rest.flatMap line)) b ↔
            Utf8.Splits (Utf8.bytes e.json.text) b := by
          rcases Nat.lt_or_eq_of_le (Nat.le_of_not_lt hb) with hlt | rfl
          · exact Utf8.splits_append_left hlt
          · simp [Utf8.Splits, Utf8.continues]
        have hrest : b - (line e).length = 0 := by omega
        have hwithin : within b (e :: rest) =
            if b = (Utf8.bytes e.json.text).length then [e] else [] := by
          rw [within, hrest, within_zero]
          exact if_congr ⟨fun h => by omega, fun h => Nat.le_of_eq h.symm⟩ rfl rfl
        rw [entries_part e hpos (Nat.le_of_not_lt hb), hwithin]
        simp only [hsplits]

end Journal

/-! ## The journal on a disk -/

namespace Disk

open Journal

variable {d t : Disk} {path : String} {snap : Option Snapshot} {older newer : Option (List Entry)}
  {es : List Entry} {handle : Nat}

/-- A crash leaves the first bytes of a file. -/
def cut (d : Disk) (id b : Nat) : Disk :=
  { d with contents := d.contents.insert id ((d.bytes id).take b) }

namespace Stores

theorem bytes_eq (h : d.Stores path snap older (some es))
    (hid : d.names.find? (livePath path) = some (.file handle)) : d.bytes handle = es.flatMap line :=
  Option.some.inj ((view_of_file hid).symm.trans h.live)

/-- Of a live file that is cut, the entries whose texts are complete are read. -/
theorem replay_cut (h : d.Stores path snap older (some es)) (hp : Suits path)
    (hid : d.names.find? (livePath path) = some (.file handle)) (b : Nat) :
    Journal.replay (d.cut handle b) path =
      if Utf8.Splits (es.flatMap line) b then .error .storage
      else .ok (older.getD [] ++ within b es) := by
  obtain ⟨-, -, hla⟩ := hp.distinct
  have hputs : d.Puts (livePath path) (some ((es.flatMap line).take b)) (d.cut handle b) := by
    rw [← h.bytes_eq hid]
    exact h.sound.overwrite hid _
  have haside : fileEntries (d.cut handle b) (asidePath path) = .ok (older.getD []) :=
    fileEntries_eq (hputs.free _ h.free_aside) ((hputs.view_of_ne hla.symm).trans h.aside)
  have hlive : fileEntries (d.cut handle b) (livePath path) = entries ((es.flatMap line).take b) := by
    rw [fileEntries, read?_eq (hputs.free _ h.free_live), hputs.view_self]
    rfl
  rw [Journal.replay, haside, hlive, entries_take]
  split <;> rfl

/-- **A torn journal loses at most the entry being written, unless a character is torn.** Whatever
entries are appended to a journal, with or without earlier ones, and wherever its live file is cut by a
crash: if the cut does not go through a character, replaying gives the entries set aside before and
those whose texts are complete in the file. If it does, replaying gives an error and no entry. -/
theorem replay_torn (h : d.Stores path snap older newer) (hp : Suits path) (more : List Entry) (b : Nat) :
    ∃ t handle, Journal.openLive d path = .ok (t, handle) ∧
      Journal.replay ((more.foldl (Journal.append handle) t).cut handle b) path =
        if Utf8.Splits ((newer.getD [] ++ more).flatMap line) b then .error .storage
        else .ok (older.getD [] ++ within b (newer.getD [] ++ more)) := by
  obtain ⟨t, handle, hopen, ht, hid⟩ := h.openLive hp
  obtain ⟨hmore, hid'⟩ := ht.appendAll hp hid more
  exact ⟨t, handle, hopen, hmore.replay_cut hp hid' b⟩

theorem empty (path : String) : Disk.empty.Stores path none none none :=
  ⟨sound_empty, fun _ _ => nofun, rfl, rfl, rfl⟩

/-- The second of two entries is cut before its key. -/
theorem replay_torn_second :
    ∃ t handle, Journal.openLive Disk.empty "state.json" = .ok (t, handle) ∧
      Journal.replay (([.seenKey "a" .epoch, .seenKey "é" .epoch].foldl (Journal.append handle) t).cut
        handle 80) "state.json" = .ok [.seenKey "a" .epoch] := by
  obtain ⟨t, handle, hopen, hreplay⟩ := (empty "state.json").replay_torn
    ⟨by decide +kernel, by decide +kernel, by decide +kernel⟩
    [.seenKey "a" .epoch, .seenKey "é" .epoch] 80
  refine ⟨t, handle, hopen, ?_⟩
  rw [hreplay, if_neg (by decide +kernel)]
  show Except.ok (within 80 [.seenKey "a" .epoch, .seenKey "é" .epoch]) = _
  rw [within, if_pos (by decide +kernel), within, if_neg (by decide +kernel)]

/-- A cut through the letter of the second key loses the first entry too. -/
theorem all_lost_in_character :
    ∃ t handle, Journal.openLive Disk.empty "state.json" = .ok (t, handle) ∧
      within 85 [.seenKey "a" .epoch, .seenKey "é" .epoch] = [.seenKey "a" .epoch] ∧
      Journal.replay (([.seenKey "a" .epoch, .seenKey "é" .epoch].foldl (Journal.append handle) t).cut
        handle 85) "state.json" = .error .storage := by
  have hp : Suits "state.json" := ⟨by decide +kernel, by decide +kernel, by decide +kernel⟩
  obtain ⟨t, handle, hopen, ht, hid⟩ := (empty "state.json").openLive hp
  obtain ⟨hmore, hid'⟩ := ht.appendAll hp hid [.seenKey "a" .epoch, .seenKey "é" .epoch]
  refine ⟨t, handle, hopen, ?_, ?_⟩
  · rw [within, if_pos (by decide +kernel), within, if_neg (by decide +kernel)]
  · rw [hmore.replay_cut hp hid' 85]
    exact if_pos (by decide +kernel)

end Stores

end Disk

end MailCampaign
