import MailCampaign.Proofs.Journal.Use

/-!
# Going on with a torn journal

A journal that is opened again after a crash goes on writing right behind the part of a line that the crash
left. Behind such a part the next line is lost, and with it an entry whose text is complete but for the end
of its line (`Fragment`). That happens to the first entry that is appended, or, if the torn file was set
aside before, to the first line of the file that is poured on top of it (`joins`). Nothing else is lost
(`Disk.Stores.replay_reopened`).
-/

namespace MailCampaign

namespace Journal

variable {a b t : List UInt8} {aside : Option (List UInt8)} {older es kept ys : List Entry}
  {uses : List Use} {y : Entry}

/-! ## What is lost -/

def Use.rotates : Use → Bool
  | .rotate => true
  | .append _ | .discard => false

/-- Whether a live file with an entry is poured on top of what was set aside. -/
def pours : List Use → Bool
  | [] | .discard :: _ => false
  | .append _ :: rest => rest.any Use.rotates
  | .rotate :: rest => pours rest

/-- Whether an entry comes to stand right behind what the live file ends with. -/
def joins : List Use → Bool
  | [] => false
  | .append _ :: _ => true
  | .rotate :: rest => pours rest
  | .discard :: rest => joins rest

/-- Bytes at the end of a file that are read as these entries, and behind which the next line is lost
together with them. -/
structure Fragment (t : List UInt8) (kept : List Entry) : Prop where
  alone : entries t = .ok kept
  joined : ∀ y, Reads (t ++ line y) []

/-- A part of the text of an entry is a fragment, also if it is the whole text. -/
theorem fragment_part (e : Entry) {k : Nat} (hk : 0 < k) (hle : k ≤ (Utf8.bytes e.json.text).length)
    (hsplit : ¬Utf8.Splits (Utf8.bytes e.json.text) k) :
    Fragment ((Utf8.bytes e.json.text).take k)
      (if k = (Utf8.bytes e.json.text).length then [e] else []) := by
  refine ⟨(entries_part e hk hle).trans (if_neg hsplit), fun y rest => ?_⟩
  have hbreak : 10 ∉ (Utf8.bytes e.json.text).take k ++ Utf8.bytes y.json.text ∧
      13 ∉ (Utf8.bytes e.json.text).take k ++ Utf8.bytes y.json.text := by
    simp only [List.mem_append, not_or]
    exact ⟨⟨fun hm => (text_unbroken e).1 (List.mem_of_mem_take hm), (text_unbroken y).1⟩,
      fun hm => (text_unbroken e).2 (List.mem_of_mem_take hm), (text_unbroken y).2⟩
  have hne : (Utf8.bytes e.json.text).take k ≠ [] := by
    obtain ⟨more, hmore⟩ := exists_bytes e
    obtain ⟨k, rfl⟩ := Nat.exists_eq_add_of_lt hk
    simp [hmore]
  rw [bytes_text] at hsplit hbreak hne ⊢
  obtain ⟨p, q, hpq, htake⟩ := Utf8.exists_take_eq hsplit
  have hp : p ≠ [] := by
    rintro rfl
    exact hne htake
  have htext : Utf8.text? ((e.json.chars.flatMap Utf8.encode).take k ++ Utf8.bytes y.json.text) =
      some (String.ofList (p ++ y.json.chars)) := by
    rw [htake, bytes_text, ← List.flatMap_append, ← Utf8.bytes_ofList, Utf8.text?_bytes]
  rw [line, ← List.append_assoc, List.append_assoc, List.singleton_append, entries_line hbreak htext,
    entryOf?_joined hpq.symm hp]
  rfl

/-! ## What is read -/

/-- A torn file that was set aside, and a live file with entries on top of it or not. -/
theorem entries_poured (ha : Reads a es) (ht : Fragment t kept) (hb : Reads b ys)
    (hkept : .discard ∉ uses) :
    (uses.foldl Files.after ⟨some (a ++ t), line y ++ b⟩).entries =
      .ok (es ++ if uses.any Use.rotates then ys ++ appended uses
        else kept ++ y :: ys ++ appended uses) := by
  induction uses generalizing b ys with
  | nil =>
    have hy : Reads (line y ++ b) ([y] ++ ys) := (reads_line y).append hb
    show (do return (← entries (a ++ t)) ++ (← entries (line y ++ b))) = _
    rw [ha, ht.alone, hy.entries]
    simp [Except.map, bind, Except.bind, pure, Except.pure]
  | cons use rest ih =>
    rw [List.mem_cons, not_or] at hkept
    cases use with
    | append e =>
      have hrest := ih (hb.append (reads_line e)) hkept.2
      simpa [Use.rotates, Files.after] using hrest
    | rotate =>
      have hsealed : Files.Reads ⟨some ((a ++ t) ++ (line y ++ b)), []⟩ (es ++ ([] ++ ys)) := by
        refine ⟨es ++ ([] ++ ys), [], ?_, reads_nil, by simp⟩
        have hall := ha.append ((ht.joined y).append hb)
        simpa using hall
      have hrest := (hsealed.after hkept.2).entries
      simpa [Use.rotates, Files.after] using hrest
    | discard => exact absurd rfl hkept.1

/-- A torn file that was set aside, under an empty live file. -/
theorem entries_set_aside (ha : Reads a es) (ht : Fragment t kept) (hkept : .discard ∉ uses) :
    (uses.foldl Files.after ⟨some (a ++ t), []⟩).entries =
      .ok (es ++ if pours uses then (appended uses).tail else kept ++ appended uses) := by
  induction uses with
  | nil =>
    show (do return (← entries (a ++ t)) ++ (← entries [])) = _
    rw [ha, ht.alone]
    simp [Except.map, bind, Except.bind, pure, Except.pure, pours, reads_nil.entries]
  | cons use rest ih =>
    rw [List.mem_cons, not_or] at hkept
    cases use with
    | append e =>
      have hrest := entries_poured (y := e) ha ht reads_nil hkept.2
      simpa [pours, Files.after] using hrest
    | rotate =>
      have hagain : Files.after ⟨some (a ++ t), []⟩ .rotate = ⟨some (a ++ t), []⟩ := by
        simp [Files.after]
      rw [List.foldl_cons, hagain]
      exact ih hkept.2
    | discard => exact absurd rfl hkept.1

/-- A live file that ends with a fragment. -/
theorem entries_torn (ha : Reads (aside.getD []) older) (hb : Reads b es) (ht : Fragment t kept)
    (hkept : .discard ∉ uses) :
    (uses.foldl Files.after ⟨aside, b ++ t⟩).entries =
      .ok (older ++ es ++ if joins uses then (appended uses).tail else kept ++ appended uses) := by
  cases uses with
  | nil =>
    show (do return (← entries (aside.getD [])) ++ (← entries (b ++ t))) = _
    rw [ha.entries, hb, ht.alone]
    simp [Except.map, bind, Except.bind, pure, Except.pure, joins]
  | cons use rest =>
    rw [List.mem_cons, not_or] at hkept
    cases use with
    | append e =>
      have hsealed : Files.Reads ⟨aside, b ++ t ++ line e⟩ (older ++ (es ++ [])) := by
        refine ⟨older, es ++ [], ha, ?_, rfl⟩
        rw [List.append_assoc]
        exact hb.append (ht.joined e)
      have hrest := (hsealed.after hkept.2).entries
      simpa [joins, Files.after] using hrest
    | rotate =>
      have hrotated : Files.after ⟨aside, b ++ t⟩ .rotate = ⟨some (aside.getD [] ++ b ++ t), []⟩ := by
        simp [Files.after]
      rw [List.foldl_cons, hrotated]
      exact entries_set_aside (ha.append hb) ht hkept.2
    | discard => exact absurd rfl hkept.1

end Journal

/-! ## On a disk -/

namespace Disk.Stores

open Journal

variable {d : Disk} {path : String} {snap : Option Snapshot} {older newer : Option (List Entry)}
  {es rest : List Entry} {e : Entry} {handle k : Nat}

/-- The journal is opened again on a live file that was cut in the text of an entry. -/
theorem reopen (h : d.Stores path snap older (some (es ++ e :: rest))) (hp : Suits path)
    (hid : d.names.find? (livePath path) = some (.file handle))
    (hle : k ≤ (Utf8.bytes e.json.text).length) :
    Journal.openLive (d.cut handle ((es.flatMap line).length + k)) path =
        .ok (d.cut handle ((es.flatMap line).length + k), handle) ∧
      (d.cut handle ((es.flatMap line).length + k)).Open path
        ⟨older.map (·.flatMap line), es.flatMap line ++ (Utf8.bytes e.json.text).take k⟩ handle := by
  obtain ⟨-, -, hla⟩ := hp.distinct
  have htake : (d.bytes handle).take ((es.flatMap line).length + k) =
      es.flatMap line ++ (Utf8.bytes e.json.text).take k := by
    rw [h.bytes_eq hid, List.flatMap_append, List.take_length_add_append, List.flatMap_cons, line,
      List.append_assoc, List.take_append_of_le_length hle]
  have hputs := h.sound.overwrite hid (es.flatMap line ++ (Utf8.bytes e.json.text).take k)
  rw [cut, htake]
  refine ⟨?_, hputs.sound, hputs.free _ h.free_aside, (hputs.view_of_ne hla.symm).trans h.aside, hid, ?_⟩
  · rw [Journal.openLive, Disk.openFile]
    dsimp only
    rw [hid]
  · exact Option.some.inj ((view_of_file (by exact hid)).symm.trans hputs.view_self)

/-- **Appending to a torn journal loses the entry that comes to stand behind the torn one, and nothing
else.** A crash cuts the live file of a journal in the text of an entry, between two characters or right
behind the text, and the journal is opened again. Whatever is appended then, and however often the journal
is rotated, replaying gives the entries set aside before, those before the torn one, and everything that is
appended, but for one thing: if an entry comes to stand right behind the torn one, that entry is lost, and
so is the torn one even if its text is complete. Otherwise the torn one is read if its text is complete. -/
theorem replay_reopened (h : d.Stores path snap older newer) (hp : Suits path)
    (more es : List Entry) (e : Entry) (rest : List Entry)
    (hmore : newer.getD [] ++ more = es ++ e :: rest) (hk : 0 < k)
    (hle : k ≤ (Utf8.bytes e.json.text).length) (hsplit : ¬Utf8.Splits (Utf8.bytes e.json.text) k)
    {uses : List Use} (hkept : .discard ∉ uses) :
    ∃ t handle u handle' v handle'', Journal.openLive d path = .ok (t, handle) ∧
      Journal.openLive ((more.foldl (Journal.append handle) t).cut handle
        ((es.flatMap line).length + k)) path = .ok (u, handle') ∧
      uses.foldlM (Use.on path) (u, handle') = .ok (v, handle'') ∧
      Journal.replay v path = .ok (older.getD [] ++ es ++
        if joins uses then (appended uses).tail
        else (if k = (Utf8.bytes e.json.text).length then [e] else []) ++ appended uses) := by
  obtain ⟨t, handle, hopen, ht, hid⟩ := h.openLive hp
  obtain ⟨hstored, hid'⟩ := ht.appendAll hp hid more
  rw [hmore] at hstored
  obtain ⟨hreopen, hu⟩ := hstored.reopen hp hid' hle
  obtain ⟨v, handle'', hrun, hv⟩ := hu.run hp uses
  have haside : Reads ((older.map (·.flatMap line)).getD []) (older.getD []) := by
    cases older with
    | none => exact reads_nil
    | some older => exact reads_lines older
  exact ⟨t, handle, _, handle, v, handle'', hopen, hreopen, hrun,
    hv.replay.trans (entries_torn haside (reads_lines es) (fragment_part e hk hle hsplit) hkept)⟩

/-- A crash right behind the text of the second entry takes that entry and the next one away. -/
theorem replay_reopened_behind :
    ∃ t handle u handle' v handle'', Journal.openLive Disk.empty "state.json" = .ok (t, handle) ∧
      Journal.openLive (([.seenKey "a" .epoch, .seenKey "b" .epoch].foldl (Journal.append handle) t).cut
        handle ((List.flatMap line [.seenKey "a" .epoch]).length + 57)) "state.json" =
          .ok (u, handle') ∧
      [Use.append (.seenKey "c" .epoch), .rotate, .append (.seenKey "d" .epoch)].foldlM
        (Use.on "state.json") (u, handle') = .ok (v, handle'') ∧
      Journal.replay v "state.json" = .ok [.seenKey "a" .epoch, .seenKey "d" .epoch] :=
  (empty "state.json").replay_reopened ⟨by decide +kernel, by decide +kernel, by decide +kernel⟩
    [.seenKey "a" .epoch, .seenKey "b" .epoch] [.seenKey "a" .epoch] (.seenKey "b" .epoch) [] rfl
    (by decide) (by decide +kernel) (by decide +kernel) (by simp)

/-- The first entry that is appended after a crash in the middle of another one is lost. -/
theorem first_lost_after_crash :
    ∃ t handle u handle' v handle'', Journal.openLive Disk.empty "state.json" = .ok (t, handle) ∧
      Journal.openLive (([.seenKey "a" .epoch, .seenKey "b" .epoch].foldl (Journal.append handle) t).cut
        handle ((List.flatMap line [.seenKey "a" .epoch]).length + 26)) "state.json" =
          .ok (u, handle') ∧
      [Use.append (.seenKey "c" .epoch)].foldlM (Use.on "state.json") (u, handle') = .ok (v, handle'') ∧
      Journal.replay v "state.json" = .ok [.seenKey "a" .epoch] := by
  have hp : Suits "state.json" := ⟨by decide +kernel, by decide +kernel, by decide +kernel⟩
  obtain ⟨t, handle, hopen, ht, hid⟩ := (empty "state.json").openLive hp
  obtain ⟨hstored, hid'⟩ := ht.appendAll hp hid [.seenKey "a" .epoch, .seenKey "b" .epoch]
  have htwo : Stores _ "state.json" none none
      (some ([.seenKey "a" .epoch] ++ .seenKey "b" .epoch :: [])) := hstored
  obtain ⟨hreopen, hu⟩ := htwo.reopen (k := 26) hp hid' (by decide +kernel)
  obtain ⟨v, handle'', hrun, hv⟩ := hu.run hp [.append (.seenKey "c" .epoch)]
  have hfragment := fragment_part (.seenKey "b" .epoch) (k := 26) (by decide) (by decide +kernel)
    (by decide +kernel)
  exact ⟨t, handle, _, handle, v, handle'', hopen, hreopen, hrun,
    hv.replay.trans (entries_torn (show Reads (Option.getD none []) [] from reads_nil) (reads_lines _)
      hfragment (by simp))⟩

end Disk.Stores

end MailCampaign
