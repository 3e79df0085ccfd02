import MailCampaign.Storage.Disk

/-!
# What steps do to the files of a disk

A disk is sound when no file has two names and a file that has not been made yet is empty. Then each
step puts something under a name, or nothing, and leaves what is under the other names.
-/

namespace MailCampaign.Disk

variable {d t u : Disk} {name other source target : String} {id : Nat} {bytes more : List UInt8}
  {o o' : Option (List UInt8)}

/-- What the file of a name holds, if there is one. -/
def view (d : Disk) (name : String) : Option (List UInt8) :=
  (d.names.find? name).bind fun
    | .file id => some (d.bytes id)
    | .folder => none

/-- A disk whose named files have been made and have one name each, and whose new files are empty. -/
structure Sound (d : Disk) : Prop where
  made : ∀ name id, d.names.find? name = some (.file id) → id < d.nextFile
  single : ∀ name other id, d.names.find? name = some (.file id) →
    d.names.find? other = some (.file id) → name = other
  blank : ∀ id, d.nextFile ≤ id → d.bytes id = []

/-- A name that is not that of a folder. -/
def Free (d : Disk) (name : String) : Prop := d.names.find? name ≠ some .folder

theorem sound_empty : empty.Sound where
  made := fun _ _ h => by cases h
  single := fun _ _ _ h => by cases h
  blank := fun _ _ => rfl

theorem view_of_file (h : d.names.find? name = some (.file id)) : d.view name = some (d.bytes id) := by
  rw [view, h]
  rfl

theorem exists_file (h : d.view name = some bytes) :
    ∃ id, d.names.find? name = some (.file id) ∧ d.bytes id = bytes := by
  obtain ⟨item, hitem, hbytes⟩ := Option.bind_eq_some_iff.1 h
  cases item with
  | folder => cases hbytes
  | file id => exact ⟨id, hitem, Option.some.inj hbytes⟩

/-- A name that is free stands for a file or for nothing. -/
theorem contains_iff (h : d.Free name) : d.names.contains name = (d.view name).isSome := by
  rw [Table.contains, view]
  cases hf : d.names.find? name with
  | none => rfl
  | some item =>
    cases item with
    | folder => exact absurd hf h
    | file id => rfl

theorem read?_eq (h : d.Free name) : d.read? name = .ok (d.view name) := by
  rw [read?, view]
  cases hf : d.names.find? name with
  | none => rfl
  | some item =>
    cases item with
    | folder => exact absurd hf h
    | file id => rfl

/-! ## Putting something under a name -/

/-- A disk becomes another one by what is put under a name; where nothing is put, the name is gone. -/
structure Puts (d : Disk) (name : String) (o : Option (List UInt8)) (t : Disk) : Prop where
  sound : t.Sound
  view : ∀ other, t.view other = if other = name then o else d.view other
  free : ∀ other, d.Free other → t.Free other
  kept : ∀ other id, other ≠ name → d.names.find? other = some (.file id) →
    t.names.find? other = some (.file id)

theorem Puts.trans (h : d.Puts name o t) (h' : t.Puts name o' u) : d.Puts name o' u where
  sound := h'.sound
  view := by
    intro other
    rw [h'.view, h.view]
    split <;> rfl
  free := fun other hf => h'.free other (h.free other hf)
  kept := fun other id hne hid => h'.kept other id hne (h.kept other id hne hid)

theorem Puts.view_self (h : d.Puts name o t) : t.view name = o := by rw [h.view, if_pos rfl]

theorem Puts.view_of_ne (h : d.Puts name o t) (hne : other ≠ name) : t.view other = d.view other := by
  rw [h.view, if_neg hne]

/-- Nothing changes when what is there is put again. -/
theorem Sound.puts_self (h : d.Sound) : d.Puts name (d.view name) d where
  sound := h
  view := by
    intro other
    split
    · next he => rw [he]
    · rfl
  free := fun _ hf => hf
  kept := fun _ _ _ hid => hid

/-- A file gets other contents. -/
theorem Sound.overwrite (h : d.Sound) (hid : d.names.find? name = some (.file id))
    (bytes : List UInt8) :
    d.Puts name (some bytes) { d with contents := d.contents.insert id bytes } := by
  have hbytes (i : Nat) : ({ d with contents := d.contents.insert id bytes } : Disk).bytes i =
      if i = id then bytes else d.bytes i := by
    unfold Disk.bytes
    rw [Table.find?_insert]
    split <;> rfl
  refine ⟨⟨h.made, h.single, fun i hi => ?_⟩, fun other => ?_, fun _ hf => hf, fun _ _ _ hi => hi⟩
  · have hne : i ≠ id := by
      rintro rfl
      exact absurd (h.made name i hid) (Nat.not_lt.2 hi)
    rw [hbytes, if_neg hne]
    exact h.blank i hi
  · by_cases hother : other = name
    · rw [if_pos hother, hother]
      exact (congrArg (Option.bind · _) hid).trans (congrArg some ((hbytes id).trans (if_pos rfl)))
    · rw [if_neg hother]
      refine Option.bind_congr fun item hi => ?_
      cases item with
      | folder => rfl
      | file i =>
        have hne : i ≠ id := fun he => hother (h.single other name id (he ▸ hi) hid)
        exact congrArg some ((hbytes i).trans (if_neg hne))

/-- Bytes are put at the end of a file. -/
theorem Sound.extend (h : d.Sound) (hid : d.names.find? name = some (.file id))
    (more : List UInt8) : d.Puts name (some (d.bytes id ++ more)) (d.extend id more) :=
  h.overwrite hid _

/-- A file without a name gets one. -/
theorem Sound.link (h : d.Sound) (hid : id < d.nextFile)
    (hnew : ∀ other, d.names.find? other ≠ some (.file id)) :
    d.Puts name (some (d.bytes id)) (d.link name (.file id)) := by
  have hfind (other : String) : (d.link name (.file id)).names.find? other =
      if other = name then some (.file id) else d.names.find? other := Table.find?_insert ..
  refine ⟨⟨fun other i hi => ?_, fun a b i ha hb => ?_, h.blank⟩, fun other => ?_, fun other hf => ?_,
    fun other i hne hi => ?_⟩
  · rw [hfind] at hi
    split at hi
    · cases hi
      exact hid
    · exact h.made other i hi
  · rw [hfind] at ha hb
    split at ha <;> split at hb
    · next hna hnb => rw [hna, hnb]
    · cases ha
      exact absurd hb (hnew b)
    · cases hb
      exact absurd ha (hnew a)
    · exact h.single a b i ha hb
  · unfold Disk.view
    rw [hfind]
    by_cases hother : other = name
    · rw [if_pos hother, if_pos hother]
      rfl
    · rw [if_neg hother, if_neg hother]
      rfl
  · unfold Free
    rw [hfind]
    split
    · intro he
      cases he
    · exact hf
  · rw [hfind, if_neg hne]
    exact hi

theorem find?_unlink (d : Disk) (name other : String) : (d.unlink name).names.find? other =
    if other = name then none else d.names.find? other := by
  show (d.names.keepIf _).find? other = _
  rw [Table.find?_keepIf]
  by_cases h : other = name
  · rw [if_pos h, h]
    simp
  · rw [if_neg h]
    cases hf : d.names.find? other <;> simp [h]

/-- A name is taken away. -/
theorem Sound.unlink (h : d.Sound) : d.Puts name none (d.unlink name) := by
  have hold {other : String} {item : Item} (hf : (d.unlink name).names.find? other = some item) :
      d.names.find? other = some item := by
    rw [find?_unlink] at hf
    split at hf
    · cases hf
    · exact hf
  refine ⟨⟨fun other i hi => h.made other i (hold hi),
    fun a b i ha hb => h.single a b i (hold ha) (hold hb), h.blank⟩, fun other => ?_,
    fun other hf he => hf (hold he),
    fun other i hne hi => by rw [find?_unlink, if_neg hne, hi]⟩
  unfold Disk.view
  rw [find?_unlink]
  by_cases hother : other = name
  · rw [if_pos hother, if_pos hother, Option.bind_none]
  · rw [if_neg hother, if_neg hother]
    rfl

/-! ## Steps -/

/-- Opening a file makes it if it is not there. -/
theorem Sound.openFile (h : d.Sound) (hf : d.Free name) :
    ∃ t id, d.openFile name = .ok (t, id) ∧ d.Puts name (some ((d.view name).getD [])) t ∧
      t.names.find? name = some (.file id) := by
  cases hfind : d.names.find? name with
  | some item =>
    cases item with
    | folder => exact absurd hfind hf
    | file id =>
      have hopen : d.openFile name = .ok (d, id) := by rw [Disk.openFile, hfind]
      have hputs : d.Puts name (some ((d.view name).getD [])) d := by
        have hself : d.Puts name (d.view name) d := h.puts_self
        rwa [view_of_file hfind] at hself ⊢
      exact ⟨d, id, hopen, hputs, hfind⟩
  | none =>
    have hopen : d.openFile name =
        .ok ({ d with nextFile := d.nextFile + 1 }.link name (.file d.nextFile), d.nextFile) := by
      rw [Disk.openFile, hfind]
    have hmore : Sound { d with nextFile := d.nextFile + 1 } :=
      ⟨fun other i hi => Nat.lt_succ_of_lt (h.made other i hi), h.single,
        fun i hi => h.blank i (Nat.le_of_succ_le hi)⟩
    have hputs : Puts { d with nextFile := d.nextFile + 1 } name (some (d.bytes d.nextFile)) _ :=
      hmore.link (Nat.lt_succ_self _) fun other hi => absurd (h.made other _ hi) (Nat.lt_irrefl _)
    refine ⟨_, _, hopen, ?_, Table.find?_insert_self ..⟩
    have hblank : d.bytes d.nextFile = [] := h.blank _ (Nat.le_refl _)
    have hview : (d.view name).getD [] = [] := by
      rw [view, hfind]
      rfl
    rw [hview, ← hblank]
    exact ⟨hputs.sound, hputs.view, hputs.free, hputs.kept⟩

theorem Sound.run_create (h : d.Sound) (hf : d.Free name) :
    ∃ t, (FileStep.create name).run d = .ok t ∧ d.Puts name (some ((d.view name).getD [])) t := by
  obtain ⟨t, id, hopen, hputs, -⟩ := h.openFile hf
  exact ⟨t, by rw [FileStep.run, hopen]; rfl, hputs⟩

theorem Sound.run_write (h : d.Sound) (hf : d.Free name) (bytes : List UInt8) :
    ∃ t, (FileStep.write name bytes).run d = .ok t ∧ d.Puts name (some bytes) t := by
  obtain ⟨t, id, hopen, hputs, hid⟩ := h.openFile hf
  exact ⟨_, by rw [FileStep.run, Disk.write, hopen]; rfl, hputs.trans (hputs.sound.overwrite hid bytes)⟩

theorem Sound.run_pour (h : d.Sound) (hs : d.view source = some bytes) (hf : d.Free target) :
    ∃ t, (FileStep.pour source target).run d = .ok t ∧
      d.Puts target (some ((d.view target).getD [] ++ bytes)) t := by
  obtain ⟨id, hid, hbytes⟩ := exists_file hs
  obtain ⟨t, i, hopen, hputs, hi⟩ := h.openFile hf
  have hread : d.read source = .ok bytes := by
    rw [Disk.read, read?, hid, ← hbytes]
    rfl
  have hrun : (FileStep.pour source target).run d = .ok (t.extend i bytes) := by
    rw [FileStep.run, hread]
    show d.append target bytes = _
    rw [Disk.append, hopen]
    rfl
  refine ⟨_, hrun, ?_⟩
  have hold : t.bytes i = (d.view target).getD [] := by
    have hview := hputs.view_self
    rw [view_of_file hi] at hview
    exact Option.some.inj hview
  have hextend := hputs.sound.extend hi bytes
  rw [hold] at hextend
  exact hputs.trans hextend

theorem Sound.run_remove (h : d.Sound) (hs : d.view name = some bytes) :
    ∃ t, (FileStep.remove name).run d = .ok t ∧ d.Puts name none t := by
  obtain ⟨id, hid, -⟩ := exists_file hs
  exact ⟨_, by rw [FileStep.run, Disk.remove, hid], h.unlink⟩

theorem Sound.run_removeIfThere (h : d.Sound) (hf : d.Free name) :
    ∃ t, (FileStep.removeIfThere name).run d = .ok t ∧ d.Puts name none t := by
  cases hfind : d.names.find? name with
  | some item =>
    cases item with
    | folder => exact absurd hfind hf
    | file id =>
      have hrun : (FileStep.removeIfThere name).run d = .ok (d.unlink name) := by
        rw [FileStep.run, Disk.removeIfThere, hfind]
        show d.remove name = _
        rw [Disk.remove, hfind]
      exact ⟨_, hrun, h.unlink⟩
  | none =>
    have hputs : d.Puts name (d.view name) d := h.puts_self
    rw [view, hfind] at hputs
    exact ⟨d, by rw [FileStep.run, Disk.removeIfThere, hfind], hputs⟩

/-- A file gets another name, in place of the file that had it. -/
theorem Sound.run_rename (h : d.Sound) (hs : d.view source = some bytes) (hf : d.Free target) :
    ∃ mid t, (FileStep.rename source target).run d = .ok t ∧ d.Puts source none mid ∧
      mid.Puts target (some bytes) t := by
  obtain ⟨id, hid, hbytes⟩ := exists_file hs
  have hunlink : d.Puts source none (d.unlink source) := h.unlink
  have hrun : (FileStep.rename source target).run d =
      .ok ((d.unlink source).link target (.file id)) := by
    rw [FileStep.run, Disk.rename, hid]
    cases hfind : d.names.find? target with
    | none => rfl
    | some item =>
      cases item with
      | folder => exact absurd hfind hf
      | file id => rfl
  have hnew : ∀ other, (d.unlink source).names.find? other ≠ some (.file id) := by
    intro other hother
    rw [find?_unlink] at hother
    split at hother
    · cases hother
    · next hne => exact hne (h.single other source id hother hid)
  have hlink : (d.unlink source).Puts target (some ((d.unlink source).bytes id)) _ :=
    hunlink.sound.link (h.made source id hid) hnew
  have hmoved : (d.unlink source).bytes id = bytes := hbytes
  rw [hmoved] at hlink
  exact ⟨_, _, hrun, hunlink, hlink⟩

/-! ## Procedures -/

/-- Steps that all succeed, with a property of the disk before each of them and after the last. -/
inductive Passes (P : Disk → Prop) : Disk → List FileStep → Disk → Prop
  | done {d : Disk} : P d → Passes P d [] d
  | step {d t u : Disk} {s : FileStep} {rest : List FileStep} : P d → s.run d = .ok t →
      Passes P t rest u → Passes P d (s :: rest) u

namespace Passes

variable {P : Disk → Prop} {l l' : List FileStep}

theorem append (h : Passes P d l t) (h' : Passes P t l' u) : Passes P d (l ++ l') u := by
  induction h with
  | done _ => exact h'
  | step hd hs _ ih => exact .step hd hs (ih h')

theorem runAll (h : Passes P d l t) : FileStep.runAll d l = (.ok (), t) := by
  induction h with
  | done _ => rfl
  | step _ hs _ ih =>
    rw [FileStep.runAll, hs]
    exact ih

/-- The property holds wherever the procedure is left off. -/
theorem take (h : Passes P d l t) (k : Nat) : P (FileStep.runAll d (l.take k)).2 := by
  induction h generalizing k with
  | done hd =>
    rw [List.take_nil]
    exact hd
  | step hd hs _ ih =>
    cases k with
    | zero => exact hd
    | succ k =>
      rw [List.take_succ_cons, FileStep.runAll, hs]
      exact ih k

end Passes

end MailCampaign.Disk
