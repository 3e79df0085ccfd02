import MailCampaign.Proofs.Journal.Torn

/-!
# Using an open journal

What is done with an open journal comes down to the bytes of its two files: an entry is written at the end
of the live one, rotating pours the live one on top of the one set aside, and discarding drops that one.

1. On a sound disk every use succeeds and does just this (`Disk.Open.use`), and so does every run of uses
   (`Disk.Open.uses`).
2. Where all files end with complete lines, they hold two generations of entries, and a use does to the
   entries what it does to the bytes (`Files.Holds.after`). As long as nothing is dropped, reading gives
   what was written (`Files.Reads.after`).
-/

namespace MailCampaign

namespace Journal

/-- Something that is done with an open journal. -/
inductive Use where
  | append (e : Entry)
  /-- Sets the live file aside. -/
  | rotate
  /-- Drops the file set aside. -/
  | discard

/-- What a use does on a disk and to the open file. -/
def Use.on (path : String) (s : Disk × Nat) : Use → Except Fault (Disk × Nat)
  | .append e => return (Journal.append s.2 s.1 e, s.2)
  | .rotate => do
    let (result, after) := Journal.rotate s.1 path s.2
    result
    return after
  | .discard => return (← (dropAside path).run s.1, s.2)

/-- The entry that a use writes. -/
def Use.appended? : Use → Option Entry
  | .append e => some e
  | .rotate | .discard => none

/-- The entries that are appended, in order. -/
def appended (uses : List Use) : List Entry := uses.filterMap Use.appended?

@[simp] theorem appended_nil : appended [] = [] := rfl

@[simp] theorem appended_append (e : Entry) (rest : List Use) :
    appended (.append e :: rest) = e :: appended rest := rfl

@[simp] theorem appended_rotate (rest : List Use) : appended (.rotate :: rest) = appended rest := rfl

@[simp] theorem appended_discard (rest : List Use) : appended (.discard :: rest) = appended rest := rfl

/-- The entries of a journal: those set aside and those written since. -/
structure Generations where
  older : List Entry
  newer : List Entry

namespace Generations

variable {g : Generations} {uses : List Use}

/-- All entries, in order. -/
def entries (g : Generations) : List Entry := g.older ++ g.newer

/-- The two generations after a use. -/
def after (g : Generations) : Use → Generations
  | .append e => { g with newer := g.newer ++ [e] }
  | .rotate => ⟨g.older ++ g.newer, []⟩
  | .discard => { g with older := [] }

/-- As long as nothing is dropped, every entry is kept. -/
theorem entries_after (g : Generations) (h : .discard ∉ uses) :
    (uses.foldl after g).entries = g.entries ++ appended uses := by
  induction uses generalizing g with
  | nil => simp
  | cons use rest ih =>
    rw [List.mem_cons, not_or] at h
    rw [List.foldl_cons, ih _ h.2]
    cases use with
    | append e => simp [after, entries]
    | rotate => simp [after, entries]
    | discard => exact absurd rfl h.1

end Generations

/-- What the two files of a journal hold. -/
structure Files where
  aside : Option (List UInt8)
  live : List UInt8

namespace Files

variable {f : Files} {g : Generations} {es : List Entry} {uses : List Use}

/-- The two files after a use. -/
def after (f : Files) : Use → Files
  | .append e => { f with live := f.live ++ line e }
  | .rotate => ⟨some (f.aside.getD [] ++ f.live), []⟩
  | .discard => { f with aside := none }

/-- The entries in the two files. -/
def entries (f : Files) : Except Fault (List Entry) := do
  return (← Journal.entries (f.aside.getD [])) ++ (← Journal.entries f.live)

/-- Both files end with complete lines and hold these generations of entries. -/
structure Holds (f : Files) (g : Generations) : Prop where
  aside : Journal.Reads (f.aside.getD []) g.older
  live : Journal.Reads f.live g.newer

theorem Holds.entries (h : f.Holds g) : f.entries = .ok g.entries := by
  rw [Files.entries, h.aside.entries, h.live.entries]
  rfl

/-- A use does to the entries what it does to the bytes. -/
theorem Holds.use (h : f.Holds g) (use : Use) : (f.after use).Holds (g.after use) := by
  cases use with
  | append e => exact ⟨h.aside, h.live.append (reads_line e)⟩
  | rotate => exact ⟨h.aside.append h.live, reads_nil⟩
  | discard => exact ⟨reads_nil, h.live⟩

theorem Holds.after (h : f.Holds g) (uses : List Use) :
    (uses.foldl Files.after f).Holds (uses.foldl Generations.after g) := by
  induction uses generalizing f g with
  | nil => exact h
  | cons use rest ih => exact ih (h.use use)

/-- Both files end with complete lines and hold these entries. -/
def Reads (f : Files) (es : List Entry) : Prop :=
  ∃ older newer, Journal.Reads (f.aside.getD []) older ∧ Journal.Reads f.live newer ∧
    es = older ++ newer

theorem Holds.reads (h : f.Holds g) : f.Reads g.entries := ⟨_, _, h.aside, h.live, rfl⟩

theorem Reads.entries (h : f.Reads es) : f.entries = .ok es := by
  obtain ⟨older, newer, hold, hnew, rfl⟩ := h
  exact Holds.entries (g := ⟨older, newer⟩) ⟨hold, hnew⟩

/-- As long as nothing is dropped, what is written is read behind what was there. -/
theorem Reads.after (h : f.Reads es) (hkept : .discard ∉ uses) :
    (uses.foldl Files.after f).Reads (es ++ appended uses) := by
  obtain ⟨older, newer, hold, hnew, rfl⟩ := h
  have hafter := Holds.after (g := ⟨older, newer⟩) ⟨hold, hnew⟩ uses
  exact Generations.entries_after ⟨older, newer⟩ hkept ▸ hafter.reads

end Files

end Journal

/-! ## On a disk -/

namespace Disk

open Journal

variable {d t : Disk} {path : String} {handle : Nat} {f : Files} {o : Option (List UInt8)}

/-- A disk on which the two files of a journal hold these bytes and the live one is open. -/
structure Open (d : Disk) (path : String) (f : Files) (handle : Nat) : Prop where
  sound : d.Sound
  free : d.Free (asidePath path)
  aside : d.view (asidePath path) = f.aside
  file : d.names.find? (livePath path) = some (.file handle)
  live : d.bytes handle = f.live

namespace Open

theorem view_live (h : d.Open path f handle) : d.view (livePath path) = some f.live := by
  rw [view_of_file h.file, h.live]

theorem free_live (h : d.Open path f handle) : d.Free (livePath path) := by
  rw [Free, h.file]
  simp

theorem replay (h : d.Open path f handle) : Journal.replay d path = f.entries := by
  have haside : fileEntries d (asidePath path) = entries (f.aside.getD []) := by
    rw [fileEntries, read?_eq h.free, h.aside]
    cases f.aside <;> rfl
  have hlive : fileEntries d (livePath path) = entries f.live := by
    rw [fileEntries, read?_eq h.free_live, h.view_live]
    rfl
  rw [Journal.replay, haside, hlive]
  rfl

theorem append (h : d.Open path f handle) (hla : livePath path ≠ asidePath path) (e : Entry) :
    (Journal.append handle d e).Open path (f.after (.append e)) handle := by
  have hputs := h.sound.extend h.file (line e)
  refine ⟨hputs.sound, hputs.free _ h.free, (hputs.view_of_ne hla.symm).trans h.aside, h.file, ?_⟩
  rw [Journal.append, bytes_extend, if_pos rfl, h.live]
  rfl

/-- A live file that was taken away is made anew and opened. -/
theorem opened (hs : d.Sound) (hla : livePath path ≠ asidePath path) (hfree : d.Free (asidePath path))
    (hfree' : d.Free (livePath path)) (haside : d.view (asidePath path) = o)
    (hnone : d.view (livePath path) = none) :
    ∃ t handle, (FileStep.create (livePath path)).run d = .ok t ∧
      Journal.openLive t path = .ok (t, handle) ∧ t.Open path ⟨o, []⟩ handle := by
  obtain ⟨t, handle, hopen, hputs, hid⟩ := hs.openFile hfree'
  refine ⟨t, handle, ?_, ?_, hputs.sound, hputs.free _ hfree, (hputs.view_of_ne hla.symm).trans haside,
    hid, ?_⟩
  · rw [FileStep.run, hopen]
    rfl
  · rw [Journal.openLive, Disk.openFile, hid]
  · have hview := hputs.view_self
    rw [view_of_file hid, hnone] at hview
    exact Option.some.inj hview

/-- Rotating always succeeds. What is set aside already stays in front. -/
theorem rotate (h : d.Open path f handle) (hla : livePath path ≠ asidePath path) :
    ∃ t handle', Journal.rotate d path handle = (.ok (), t, handle') ∧
      t.Open path (f.after .rotate) handle' := by
  have hsteps : ∃ t steps, rotateSteps d path = steps ++ [.create (livePath path)] ∧
      FileStep.runAll d steps = (.ok (), t) ∧ t.Sound ∧ t.Free (asidePath path) ∧
      t.Free (livePath path) ∧ t.view (asidePath path) = some (f.aside.getD [] ++ f.live) ∧
      t.view (livePath path) = none := by
    rw [rotateSteps, contains_iff h.free, h.aside]
    cases haside : f.aside with
    | some a =>
      obtain ⟨t, hpour, hputs⟩ := h.sound.run_pour h.view_live h.free
      rw [h.aside, haside] at hputs
      have hlive : t.view (livePath path) = some f.live := (hputs.view_of_ne hla).trans h.view_live
      obtain ⟨u, hremove, hputs'⟩ := hputs.sound.run_remove hlive
      refine ⟨u, [.pour (livePath path) (asidePath path), .remove (livePath path)], rfl, ?_,
        hputs'.sound, hputs'.free _ (hputs.free _ h.free), hputs'.free _ (hputs.free _ h.free_live),
        (hputs'.view_of_ne hla.symm).trans hputs.view_self, hputs'.view_self⟩
      rw [FileStep.runAll, hpour]
      dsimp only
      rw [FileStep.runAll, hremove]
      rfl
    | none =>
      obtain ⟨mid, t, hrename, hmid, hputs⟩ := h.sound.run_rename h.view_live h.free
      refine ⟨t, [.rename (livePath path) (asidePath path)], rfl, ?_, hputs.sound,
        hputs.free _ (hmid.free _ h.free), hputs.free _ (hmid.free _ h.free_live), hputs.view_self,
        (hputs.view_of_ne hla).trans hmid.view_self⟩
      rw [FileStep.runAll, hrename]
      rfl
  obtain ⟨t, steps, hrotate, hrun, hs, hfree, hfree', haside, hnone⟩ := hsteps
  obtain ⟨u, handle', hcreate, hopen, hu⟩ := opened hs hla hfree hfree' haside hnone
  refine ⟨u, handle', ?_, hu⟩
  have hall : FileStep.runAll d (rotateSteps d path) = (.ok (), u) := by
    rw [hrotate, FileStep.runAll_append, hrun]
    dsimp only
    rw [FileStep.runAll, hcreate]
    rfl
  rw [Journal.rotate, hall]
  dsimp only
  rw [hopen]

theorem discard (h : d.Open path f handle) (hla : livePath path ≠ asidePath path) :
    ∃ t, (dropAside path).run d = .ok t ∧ t.Open path (f.after .discard) handle := by
  obtain ⟨t, hrun, hputs⟩ := h.sound.run_removeIfThere h.free
  have hfile := hputs.kept _ _ hla h.file
  refine ⟨t, hrun, hputs.sound, hputs.free _ h.free, hputs.view_self, hfile, ?_⟩
  have hview := (hputs.view_of_ne hla).trans h.view_live
  rw [view_of_file hfile] at hview
  exact Option.some.inj hview

/-- Every use of an open journal succeeds and does to the two files what it should. -/
theorem use (h : d.Open path f handle) (hla : livePath path ≠ asidePath path) (use : Use) :
    ∃ t handle', use.on path (d, handle) = .ok (t, handle') ∧ t.Open path (f.after use) handle' := by
  cases use with
  | append e => exact ⟨_, _, rfl, h.append hla e⟩
  | rotate =>
    obtain ⟨t, handle', hrun, ht⟩ := h.rotate hla
    refine ⟨t, handle', ?_, ht⟩
    rw [Use.on, hrun]
    rfl
  | discard =>
    obtain ⟨t, hrun, ht⟩ := h.discard hla
    refine ⟨t, handle, ?_, ht⟩
    rw [Use.on, hrun]
    rfl

theorem uses (h : d.Open path f handle) (hla : livePath path ≠ asidePath path) (uses : List Use) :
    ∃ t handle', uses.foldlM (Use.on path) (d, handle) = .ok (t, handle') ∧
      t.Open path (uses.foldl Files.after f) handle' := by
  induction uses generalizing d f handle with
  | nil => exact ⟨d, handle, rfl, h⟩
  | cons use rest ih =>
    obtain ⟨t, handle', hrun, ht⟩ := h.use hla use
    obtain ⟨u, handle'', hrest, hu⟩ := ih ht
    refine ⟨u, handle'', ?_, hu⟩
    rw [List.foldlM_cons, hrun]
    exact hrest

/-- Beside a snapshot the two files have different names in any case. -/
theorem run (h : d.Open path f handle) (hp : Suits path) (uses : List Use) :
    ∃ t handle', uses.foldlM (Use.on path) (d, handle) = .ok (t, handle') ∧
      t.Open path (uses.foldl Files.after f) handle' :=
  h.uses hp.distinct.2.2 uses

end Open

end Disk

end MailCampaign
