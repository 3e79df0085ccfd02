import MailCampaign.Proofs.Journal.Use

/-!
# What rotating and discarding leave

A journal that was opened anew may be used in any order: entries are appended, the live file is set aside,
also on top of what is set aside already, and what is set aside is dropped, also when there is nothing.

1. An entry is dropped when the journal is rotated behind it and something is dropped behind that
   (`Drops`). So the uses that count are those behind the last rotation that has a drop behind it
   (`Latest`), and in them nothing is dropped any more.
2. The two generations of entries hold just what these uses append (`Generations.entries_latest`), by an
   induction over the uses: before the first drop nothing is set aside that was appended by them.
3. Opening, using and reading a journal on a disk comes down to its generations (`readBack_eq`), and with
   that reading gives what the uses that count append (`generations_kept`).
-/

namespace MailCampaign

namespace Journal

variable {g : Generations} {uses rest : List Use}

/-! ## The uses that count -/

/-- Somewhere the journal is rotated, and later something is dropped. -/
def Drops (uses : List Use) : Prop := List.Sublist [.rotate, .discard] uses

/-- What follows the last rotation with a drop behind it, or everything if there is no such rotation. -/
inductive Latest : List Use → List Use → Prop
  | all {uses : List Use} : ¬ Drops uses → Latest uses uses
  | since (before : List Use) {rest : List Use} : .discard ∈ rest → ¬ Drops rest →
      Latest (before ++ .rotate :: rest) rest

theorem drops_cons {use : Use} :
    Drops (use :: rest) ↔ Drops rest ∨ use = .rotate ∧ .discard ∈ rest := by
  unfold Drops
  rw [List.sublist_cons_iff]
  refine or_congr_right ⟨?_, ?_⟩
  · rintro ⟨tail, htail, h⟩
    obtain ⟨rfl, rfl⟩ := List.cons.inj htail
    exact ⟨rfl, List.singleton_sublist.1 h⟩
  · rintro ⟨rfl, h⟩
    exact ⟨_, rfl, List.singleton_sublist.2 h⟩

theorem exists_latest (uses : List Use) : ∃ rest, Latest uses rest := by
  induction uses with
  | nil => exact ⟨[], .all nofun⟩
  | cons use rest ih =>
    by_cases hrest : Drops rest
    · -- The last such rotation comes later.
      obtain ⟨latest, hlatest⟩ := ih
      cases hlatest with
      | all hnot => exact absurd hrest hnot
      | since before hdiscard hnot => exact ⟨latest, .since (use :: before) hdiscard hnot⟩
    · by_cases hfirst : use = .rotate ∧ .discard ∈ rest
      · obtain ⟨rfl, hdiscard⟩ := hfirst
        exact ⟨rest, .since [] hdiscard hrest⟩
      · exact ⟨use :: rest, .all fun h => (drops_cons.1 h).elim hrest hfirst⟩

/-! ## Generations of entries -/

namespace Generations

/-- Without a rotation the newer entries only grow. -/
theorem newer_after (g : Generations) (h : .rotate ∉ uses) :
    (uses.foldl after g).newer = g.newer ++ appended uses := by
  induction uses generalizing g with
  | nil => simp
  | cons use rest ih =>
    rw [List.mem_cons, not_or] at h
    rw [List.foldl_cons, ih _ h.2]
    cases use with
    | append e => simp [after]
    | rotate => exact absurd rfl h.1
    | discard => rfl

/-- And nothing is set aside. -/
theorem older_after (hg : g.older = []) (h : .rotate ∉ uses) : (uses.foldl after g).older = [] := by
  induction uses generalizing g with
  | nil => exact hg
  | cons use rest ih =>
    rw [List.mem_cons, not_or] at h
    refine ih ?_ h.2
    cases use with
    | append e => exact hg
    | rotate => exact absurd rfl h.1
    | discard => rfl

/-- A drop changes nothing when nothing is set aside. -/
theorem after_discard (hg : g.older = []) : g.after .discard = g := by
  rw [after, ← hg]

/-- With nothing set aside, uses that do not drop what they append keep all of it. -/
theorem entries_of_not_drops (hg : g.older = []) (h : ¬ Drops uses) :
    (uses.foldl after g).entries = g.newer ++ appended uses := by
  induction uses generalizing g with
  | nil => simp [entries, hg]
  | cons use rest ih =>
    have hrest : ¬ Drops rest := fun hr => h (drops_cons.2 (.inl hr))
    cases use with
    | append e => exact (ih (g := g.after (.append e)) hg hrest).trans (by simp [after])
    | rotate =>
      -- What is set aside now is never dropped.
      have hnone : .discard ∉ rest := fun hmem => h (drops_cons.2 (.inr ⟨rfl, hmem⟩))
      exact (entries_after (g.after .rotate) hnone).trans (by simp [after, entries, hg])
    | discard => exact ih (g := g.after .discard) rfl hrest

/-- If they drop something at all, it is what was set aside before. -/
theorem entries_of_discard (g : Generations) (hdiscard : .discard ∈ uses) (h : ¬ Drops uses) :
    (uses.foldl after g).entries = g.newer ++ appended uses := by
  induction uses generalizing g with
  | nil => cases hdiscard
  | cons use rest ih =>
    have hrest : ¬ Drops rest := fun hr => h (drops_cons.2 (.inl hr))
    cases use with
    | append e =>
      have hmem : .discard ∈ rest := by simpa using hdiscard
      exact (ih (g.after (.append e)) hmem hrest).trans (by simp [after])
    | rotate =>
      have hmem : .discard ∈ rest := by simpa using hdiscard
      exact absurd (drops_cons.2 (.inr ⟨rfl, hmem⟩)) h
    | discard => exact entries_of_not_drops (g := g.after .discard) rfl hrest

/-- The entries that are left are those that the latest uses append. -/
theorem entries_latest (h : Latest uses rest) :
    (uses.foldl after ⟨[], []⟩).entries = appended rest := by
  cases h with
  | all hnot => exact (entries_of_not_drops rfl hnot).trans (List.nil_append _)
  | since before hdiscard hnot =>
    rw [List.foldl_append, List.foldl_cons]
    exact (entries_of_discard _ hdiscard hnot).trans (List.nil_append _)

end Generations

/-! ## On a disk -/

/-- What is read in the end when a journal is opened and used. -/
def readBack (d : Disk) (path : String) (uses : List Use) : Except Fault (List Entry) := do
  let start ← openLive d path
  let (t, _) ← uses.foldlM (Use.on path) start
  replay t path

end Journal

namespace Disk

open Journal

variable {d : Disk} {path : String}

/-- A new journal has two empty generations. -/
theorem Open.fresh (hs : d.Sound) (hlive : d.names.find? (livePath path) = none)
    (haside : d.names.find? (asidePath path) = none) (hla : livePath path ≠ asidePath path) :
    ∃ t handle, Journal.openLive d path = .ok (t, handle) ∧ t.Open path ⟨none, []⟩ handle := by
  have hfree : d.Free (livePath path) := by
    rw [Free, hlive]
    simp
  have hfree' : d.Free (asidePath path) := by
    rw [Free, haside]
    simp
  have hnone : d.view (livePath path) = none := by rw [view, hlive, Option.bind_none]
  have hnone' : d.view (asidePath path) = none := by rw [view, haside, Option.bind_none]
  obtain ⟨t, handle, hopen, hputs, hid⟩ := hs.openFile hfree
  refine ⟨t, handle, hopen, hputs.sound, hputs.free _ hfree',
    (hputs.view_of_ne hla.symm).trans hnone', hid, ?_⟩
  have hview := hputs.view_self
  rw [view_of_file hid, hnone] at hview
  exact Option.some.inj hview

theorem readBack_eq (hs : d.Sound) (hlive : d.names.find? (livePath path) = none)
    (haside : d.names.find? (asidePath path) = none) (hla : livePath path ≠ asidePath path)
    (uses : List Use) :
    readBack d path uses = .ok (uses.foldl Generations.after ⟨[], []⟩).entries := by
  obtain ⟨t, handle, hopen, ht⟩ := Open.fresh hs hlive haside hla
  obtain ⟨u, handle', hrun, hu⟩ := ht.uses hla uses
  have hholds : Files.Holds ⟨none, []⟩ ⟨[], []⟩ := ⟨reads_nil, reads_nil⟩
  rw [readBack, hopen]
  show (uses.foldlM (Use.on path) (t, handle) >>= fun s => Journal.replay s.1 path) = _
  rw [hrun]
  exact hu.replay.trans (hholds.after uses).entries

/-- **Rotations lose nothing, and a drop loses what was set aside.** On a disk with neither of the two
files of a journal, the journal is opened and used in any way. Then reading gives what is appended behind
the last rotation with a drop behind it, everything if there is none, each entry once and in order. So
without a drop nothing is lost, whatever the rotations; what is appended after the last rotation is read
in any case; and another drop changes nothing unless there was a rotation since. The path of the live file
ends with a name: without one, as in `..`, it would be that of a folder. -/
theorem generations_kept (hs : d.Sound) (hlive : d.names.find? (livePath path) = none)
    (haside : d.names.find? (asidePath path) = none)
    (hnamed : (Path.split? (livePath path).toList).isSome = true) :
    (∀ uses, ∃ rest, Latest uses rest ∧ readBack d path uses = .ok (appended rest)) ∧
    (∀ uses rest, Latest uses rest → readBack d path uses = .ok (appended rest)) ∧
    (∀ uses, .discard ∉ uses → readBack d path uses = .ok (appended uses)) ∧
    (∀ before after, .rotate ∉ after →
      ∃ earlier, readBack d path (before ++ after) = .ok (earlier ++ appended after)) ∧
    ∀ before between after, .rotate ∉ between →
      readBack d path (before ++ .discard :: between ++ .discard :: after) =
        readBack d path (before ++ .discard :: between ++ after) := by
  have hread := readBack_eq hs hlive haside (livePath_ne_asidePath hnamed)
  have hlatest (uses rest : List Use) (h : Latest uses rest) :
      readBack d path uses = .ok (appended rest) := by
    rw [hread, Generations.entries_latest h]
  refine ⟨fun uses => ?_, hlatest, fun uses hkept => ?_, fun before after hlast => ?_,
    fun before between after hsame => ?_⟩
  · obtain ⟨rest, hrest⟩ := exists_latest uses
    exact ⟨rest, hrest, hlatest uses rest hrest⟩
  · rw [hread, Generations.entries_after _ hkept]
    rfl
  · rw [hread, List.foldl_append, Generations.entries, Generations.newer_after _ hlast,
      ← List.append_assoc]
    exact ⟨_, rfl⟩
  · have hnone : ((before ++ .discard :: between).foldl Generations.after ⟨[], []⟩).older = [] := by
      rw [List.foldl_append, List.foldl_cons]
      exact Generations.older_after rfl hsame
    generalize before ++ Use.discard :: between = earlier at hnone ⊢
    rw [hread, hread, List.foldl_append, List.foldl_append, List.foldl_cons,
      Generations.after_discard hnone]

/-- Two rotations, the second on top of what the first set aside, an entry, and a drop. -/
theorem generations_kept_twice :
    readBack Disk.empty "state.json" [.append (.seenKey "a" .epoch), .rotate,
        .append (.seenKey "b" .epoch), .rotate, .append (.seenKey "c" .epoch)] =
      .ok [.seenKey "a" .epoch, .seenKey "b" .epoch, .seenKey "c" .epoch] ∧
    readBack Disk.empty "state.json" [.append (.seenKey "a" .epoch), .rotate,
        .append (.seenKey "b" .epoch), .rotate, .append (.seenKey "c" .epoch), .discard] =
      .ok [.seenKey "c" .epoch] := by
  have hnamed : (Path.split? (livePath "state.json").toList).isSome = true := by decide +kernel
  obtain ⟨-, hlatest, hundropped, -⟩ := generations_kept sound_empty rfl rfl hnamed
  refine ⟨hundropped _ (by simp), hlatest _ _ (.since [.append (.seenKey "a" .epoch), .rotate,
    .append (.seenKey "b" .epoch)] (by simp) ?_)⟩
  simp [Drops, List.sublist_cons_iff]

end Disk

end MailCampaign
