import MailCampaign.Proofs.Journal.Lines
import MailCampaign.Proofs.Storage.Disk
import MailCampaign.Proofs.Storage.Path
import MailCampaign.Proofs.World.Backing

/-!
# A snapshot and its journal on a disk

A disk stores a snapshot and the entries of the two files of its journal as their texts. The steps that
save a snapshot all succeed, and before, between and after them the disk holds the world: what is read
from it backs the world.
-/

namespace MailCampaign

open Journal

variable {d t u : Disk} {path : String} {snap : Option Snapshot} {older newer newer' : Option (List Entry)}

namespace Disk

/-- A disk with a snapshot and with entries in the file set aside and in the live file. -/
structure Stores (d : Disk) (path : String) (snap : Option Snapshot)
    (older newer : Option (List Entry)) : Prop where
  sound : d.Sound
  free : ∀ name ∈ filesBeside path, d.Free name
  snapshot : d.view path = snap.map fun s => Utf8.bytes s.json.text
  aside : d.view (asidePath path) = older.map (·.flatMap line)
  live : d.view (livePath path) = newer.map (·.flatMap line)

namespace Stores

theorem free_path (h : d.Stores path snap older newer) : d.Free path := h.free path (by simp [filesBeside])

theorem free_temporary (h : d.Stores path snap older newer) : d.Free (Host.Task.temporaryPath path) :=
  h.free _ (by simp [filesBeside])

theorem free_live (h : d.Stores path snap older newer) : d.Free (livePath path) :=
  h.free _ (by simp [filesBeside])

theorem free_aside (h : d.Stores path snap older newer) : d.Free (asidePath path) :=
  h.free _ (by simp [filesBeside])

/-! ## Reading -/

theorem fileEntries_eq {name : String} {es : Option (List Entry)} (hf : d.Free name)
    (h : d.view name = es.map (·.flatMap line)) : fileEntries d name = .ok (es.getD []) := by
  rw [fileEntries, read?_eq hf, h]
  cases es with
  | none => rfl
  | some es => exact entries_lines es

/-- The entries that are stored are read. -/
theorem replay (h : d.Stores path snap older newer) :
    Journal.replay d path = .ok (older.getD [] ++ newer.getD []) := by
  rw [Journal.replay, fileEntries_eq h.free_aside h.aside, fileEntries_eq h.free_live h.live]
  rfl

/-- The snapshot that is stored is read. -/
theorem readSnapshot (h : d.Stores path snap older newer) :
    Host.Task.readSnapshot d path = .ok snap := by
  rw [Host.Task.readSnapshot, read?_eq h.free_path, h.snapshot]
  cases snap with
  | none => rfl
  | some s =>
    have hread := Json.readBytes_text (n := 7) s.reads (by decide)
    simp [hread, bind, Except.bind, pure, Except.pure]

/-! ## Putting something in a file -/

section

variable (h : d.Stores path snap older newer) (hp : Suits path)

include h hp

theorem putLive (ht : d.Puts (livePath path) (newer'.map (·.flatMap line)) t) :
    t.Stores path snap older newer' := by
  obtain ⟨⟨-, hpl, -⟩, -, hla⟩ := hp.distinct
  exact ⟨ht.sound, fun name hn => ht.free name (h.free name hn), (ht.view_of_ne hpl).trans h.snapshot,
    (ht.view_of_ne hla.symm).trans h.aside, ht.view_self⟩

theorem putAside {older' : Option (List Entry)}
    (ht : d.Puts (asidePath path) (older'.map (·.flatMap line)) t) :
    t.Stores path snap older' newer := by
  obtain ⟨⟨-, -, hpa⟩, -, hla⟩ := hp.distinct
  exact ⟨ht.sound, fun name hn => ht.free name (h.free name hn), (ht.view_of_ne hpa).trans h.snapshot,
    ht.view_self, (ht.view_of_ne hla).trans h.live⟩

theorem putSnapshot {s : Snapshot} (ht : d.Puts path (some (Utf8.bytes s.json.text)) t) :
    t.Stores path (some s) older newer := by
  obtain ⟨⟨-, hpl, hpa⟩, -, -⟩ := hp.distinct
  exact ⟨ht.sound, fun name hn => ht.free name (h.free name hn), ht.view_self,
    (ht.view_of_ne hpa.symm).trans h.aside, (ht.view_of_ne hpl.symm).trans h.live⟩

theorem putTemporary {o : Option (List UInt8)} (ht : d.Puts (Host.Task.temporaryPath path) o t) :
    t.Stores path snap older newer := by
  obtain ⟨⟨hpt, -, -⟩, ⟨htl, hta⟩, -⟩ := hp.distinct
  exact ⟨ht.sound, fun name hn => ht.free name (h.free name hn), (ht.view_of_ne hpt).trans h.snapshot,
    (ht.view_of_ne hta.symm).trans h.aside, (ht.view_of_ne htl.symm).trans h.live⟩

end

end Stores

/-! ## Saving -/

/-- What is read from a disk backs a world. -/
def Holds (path : String) (w : World) (forgot : Slot → Datum → Prop) (d : Disk) : Prop :=
  ∃ snap older newer, d.Stores path snap older newer ∧
    w.Backed forgot snap (older.getD [] ++ newer.getD [])

/-- The live file of a disk is that of another one. -/
def SameLive (path : String) (d t : Disk) : Prop := ∀ id,
  d.names.find? (livePath path) = some (.file id) → t.names.find? (livePath path) = some (.file id)

namespace Stores

variable {w : World} {forgot : Slot → Datum → Prop} {entries : List Entry}

theorem holds (h : d.Stores path snap older newer)
    (hw : w.Backed forgot snap (older.getD [] ++ newer.getD [])) : d.Holds path w forgot :=
  ⟨snap, older, newer, h, hw⟩

/-- A live file that was taken away is made anew. -/
theorem create (h : d.Stores path snap older none) (hp : Suits path) :
    ∃ t, (FileStep.create (livePath path)).run d = .ok t ∧ t.Stores path snap older (some []) := by
  obtain ⟨t, hrun, hputs⟩ := h.sound.run_create h.free_live
  rw [h.live] at hputs
  exact ⟨t, hrun, h.putLive hp hputs⟩

/-- Setting the live file aside keeps the world, also on top of what is still set aside. -/
theorem rotate (h : d.Stores path snap older (some entries)) (hp : Suits path)
    (hw : w.Backed forgot snap (older.getD [] ++ entries)) :
    ∃ t, Passes (Holds path w forgot) d (rotateSteps d path) t ∧
      t.Stores path snap (some (older.getD [] ++ entries)) (some []) := by
  have hlive : d.view (livePath path) = some (entries.flatMap line) := h.live
  have hall : w.Backed forgot snap (older.getD [] ++ entries ++ []) := by rwa [List.append_nil]
  rw [rotateSteps, contains_iff h.free_aside, h.aside]
  cases older with
  | some older =>
    obtain ⟨t, hpour, hputs⟩ := h.sound.run_pour hlive h.free_aside
    rw [h.aside, Option.map_some, Option.getD_some, ← List.flatMap_append] at hputs
    have ht : t.Stores path snap (some (older ++ entries)) (some entries) := h.putAside hp hputs
    obtain ⟨u, hremove, hputs⟩ := ht.sound.run_remove (show t.view (livePath path) = _ from ht.live)
    have hu : u.Stores path snap (some (older ++ entries)) none := ht.putLive hp hputs
    obtain ⟨v, hcreate, hv⟩ := hu.create hp
    exact ⟨v, .step (h.holds hw) hpour (.step (ht.holds hw.again) hremove
      (.step (hu.holds hall) hcreate (.done (hv.holds hall)))), hv⟩
  | none =>
    obtain ⟨mid, t, hrename, hmid, hputs⟩ := h.sound.run_rename hlive h.free_aside
    have hm : mid.Stores path snap none none := h.putLive hp hmid
    have ht : t.Stores path snap (some entries) none := hm.putAside hp hputs
    obtain ⟨u, hcreate, hu⟩ := ht.create hp
    exact ⟨u, .step (h.holds hw) hrename (.step (ht.holds hall) hcreate (.done (hu.holds hall))), hu⟩

/-- A snapshot of the world is put in its place. -/
theorem place (h : d.Stores path snap older newer) (hp : Suits path)
    (hw : w.Backed forgot snap (older.getD [] ++ newer.getD [])) (htidy : w.Tidy) {s : Snapshot}
    (hs : s.Lists w) :
    ∃ t, Passes (Holds path w forgot) d (Host.Task.snapshotSteps path s) t ∧
      t.Stores path (some s) older newer ∧ SameLive path d t := by
  obtain ⟨⟨-, hpl, -⟩, ⟨htl, -⟩, -⟩ := hp.distinct
  obtain ⟨t, hwrite, hputs⟩ := h.sound.run_write h.free_temporary (Utf8.bytes s.json.text)
  have ht : t.Stores path snap older newer := h.putTemporary hp hputs
  obtain ⟨mid, u, hrename, hmid, hplace⟩ := ht.sound.run_rename hputs.view_self ht.free_path
  have hu : u.Stores path (some s) older newer := (ht.putTemporary hp hmid).putSnapshot hp hplace
  refine ⟨u, .step (h.holds hw) hwrite (.step (ht.holds hw) hrename
    (.done (hu.holds (hw.saved htidy hs List.suffix_rfl)))), hu, fun id hid => ?_⟩
  exact hplace.kept _ id hpl.symm (hmid.kept _ id htl.symm (hputs.kept _ id htl.symm hid))

/-- The file set aside is dropped when a snapshot covers it. -/
theorem drop (h : d.Stores path snap older newer) (hp : Suits path)
    (hw : w.Backed forgot snap (older.getD [] ++ newer.getD []))
    (hrest : w.Backed forgot snap (newer.getD [])) :
    ∃ t, Passes (Holds path w forgot) d [dropAside path] t ∧ t.Stores path snap none newer ∧
      SameLive path d t := by
  obtain ⟨-, -, hla⟩ := hp.distinct
  obtain ⟨t, hrun, hputs⟩ := h.sound.run_removeIfThere h.free_aside
  have ht : t.Stores path snap none newer := h.putAside hp hputs
  exact ⟨t, .step (h.holds hw) hrun (.done (ht.holds (by simpa using hrest))), ht,
    fun id hid => hputs.kept _ id hla hid⟩

/-- Wherever saving is left off, the disk holds the world; in the end the journal has started over. -/
theorem save (h : d.Stores path snap older (some entries)) (hp : Suits path)
    (hw : w.Backed forgot snap (older.getD [] ++ entries)) (htidy : w.Tidy) {s : Snapshot}
    (hs : s.Lists w) :
    ∃ t u, FileStep.runAll d (rotateSteps d path) = (.ok (), t) ∧
      Passes (Holds path w forgot) d
        (rotateSteps d path ++ Host.Task.snapshotSteps path s ++ [dropAside path]) u ∧
      u.Stores path (some s) none (some []) ∧ w.Backed forgot (some s) [] ∧ SameLive path t u := by
  have hall : w.Backed forgot snap ((some (older.getD [] ++ entries)).getD [] ++ (some []).getD []) := by
    simpa using hw
  have hempty : w.Backed forgot (some s) [] := hw.saved htidy hs (List.nil_suffix)
  obtain ⟨t, hrotate, ht⟩ := h.rotate hp hw
  obtain ⟨u, hplace, hu, hlive⟩ := ht.place hp hall htidy hs
  obtain ⟨v, hdrop, hv, hlive'⟩ := hu.drop hp (hall.saved htidy hs List.suffix_rfl) hempty
  exact ⟨t, v, hrotate.runAll, (hrotate.append hplace).append hdrop, hv, hempty,
    fun id hid => hlive' id (hlive id hid)⟩

/-! ## Appending -/

/-- Opening the live file makes it if there is none. -/
theorem openLive (h : d.Stores path snap older newer) (hp : Suits path) :
    ∃ t handle, Journal.openLive d path = .ok (t, handle) ∧
      t.Stores path snap older (some (newer.getD [])) ∧
      t.names.find? (livePath path) = some (.file handle) := by
  obtain ⟨t, handle, hopen, hputs, hid⟩ := h.sound.openFile h.free_live
  refine ⟨t, handle, hopen, h.putLive hp ?_, hid⟩
  rw [h.live] at hputs
  cases newer <;> exact hputs

theorem append {handle : Nat} (h : d.Stores path snap older (some entries)) (hp : Suits path)
    (hid : d.names.find? (livePath path) = some (.file handle)) (e : Entry) :
    (Journal.append handle d e).Stores path snap older (some (entries ++ [e])) := by
  have hputs : d.Puts (livePath path) _ (Journal.append handle d e) := h.sound.extend hid (line e)
  have hbytes : d.bytes handle = entries.flatMap line :=
    Option.some.inj ((view_of_file hid).symm.trans h.live)
  rw [hbytes] at hputs
  exact h.putLive hp (by simpa using hputs)

/-- Entries are written at the end of the live file. -/
theorem appendAll {handle : Nat} (h : d.Stores path snap older (some entries)) (hp : Suits path)
    (hid : d.names.find? (livePath path) = some (.file handle)) (more : List Entry) :
    (more.foldl (Journal.append handle) d).Stores path snap older (some (entries ++ more)) ∧
      (more.foldl (Journal.append handle) d).names.find? (livePath path) = some (.file handle) := by
  induction more generalizing d entries with
  | nil => exact ⟨by simpa using h, hid⟩
  | cons e rest ih =>
    have hrest := ih (h.append hp hid e) hid
    rw [List.append_assoc] at hrest
    exact hrest

end Stores

end Disk

end MailCampaign
