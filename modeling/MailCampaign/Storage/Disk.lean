import MailCampaign.Fault
import MailCampaign.Table

/-!
# A disk

A directory of names for files and folders. A file that is open lives on without its name: a name
can be removed or given to another file while somebody goes on writing to the old one.
-/

namespace MailCampaign

/-- What a name stands for. -/
inductive Item where
  | folder
  | file (id : Nat)
deriving DecidableEq

/-- A directory and the contents of files. -/
structure Disk where
  names : Table String Item
  contents : Table Nat (List UInt8)
  /-- The id of the next new file. -/
  nextFile : Nat

namespace Disk

/-- The empty disk. -/
def empty : Disk := ⟨Table.empty, Table.empty, 0⟩

/-- What a file holds. -/
def bytes (d : Disk) (id : Nat) : List UInt8 := (d.contents.find? id).getD []

/-- Puts bytes at the end of a file. -/
def extend (d : Disk) (id : Nat) (more : List UInt8) : Disk :=
  { d with contents := d.contents.insert id (d.bytes id ++ more) }

/-- Gives a name to a file or folder. -/
def link (d : Disk) (name : String) (item : Item) : Disk :=
  { d with names := d.names.insert name item }

/-- Takes a name away. -/
def unlink (d : Disk) (name : String) : Disk :=
  { d with names := d.names.keepIf fun n _ => n != name }

/-- Opens the file of a name, a new one if there is none. -/
def openFile (d : Disk) (name : String) : Except Fault (Disk × Nat) :=
  match d.names.find? name with
  | some (.file id) => .ok (d, id)
  | some .folder => .error .storage
  | none => .ok ({ d with nextFile := d.nextFile + 1 }.link name (.file d.nextFile), d.nextFile)

/-- What the file of a name holds, if there is such a name. -/
def read? (d : Disk) (name : String) : Except Fault (Option (List UInt8)) :=
  match d.names.find? name with
  | some (.file id) => .ok (some (d.bytes id))
  | some .folder => .error .storage
  | none => .ok none

/-- What the file of a name holds. -/
def read (d : Disk) (name : String) : Except Fault (List UInt8) := do
  match ← d.read? name with
  | some bytes => return bytes
  | none => throw .storage

/-- Writes a file anew. -/
def write (d : Disk) (name : String) (bytes : List UInt8) : Except Fault Disk := do
  let (d, id) ← d.openFile name
  return { d with contents := d.contents.insert id bytes }

/-- Puts bytes at the end of the file of a name. -/
def append (d : Disk) (name : String) (bytes : List UInt8) : Except Fault Disk := do
  let (d, id) ← d.openFile name
  return d.extend id bytes

/-- Removes a file. -/
def remove (d : Disk) (name : String) : Except Fault Disk :=
  match d.names.find? name with
  | some (.file _) => .ok (d.unlink name)
  | _ => .error .storage

/-- Removes a file if there is one. -/
def removeIfThere (d : Disk) (name : String) : Except Fault Disk :=
  match d.names.find? name with
  | none => .ok d
  | _ => d.remove name

/-- Makes an empty folder. -/
def makeFolder (d : Disk) (name : String) : Except Fault Disk :=
  match d.names.find? name with
  | none => .ok (d.link name .folder)
  | some _ => .error .storage

/-- Gives a file or folder another name, in place of what had that name. A file does not replace a
folder, nor a folder a file. -/
def rename (d : Disk) (source target : String) : Except Fault Disk :=
  match d.names.find? source, d.names.find? target with
  | none, _ => .error .storage
  | some (.file _), some .folder => .error .storage
  | some .folder, some (.file _) => .error .storage
  | some item, _ => .ok ((d.unlink source).link target item)

theorem bytes_extend (d : Disk) (id other : Nat) (more : List UInt8) :
    (d.extend id more).bytes other = if other = id then d.bytes id ++ more else d.bytes other := by
  unfold extend bytes
  simp only [Table.find?_insert]
  split <;> rfl

/-- What was written is read. -/
theorem read?_write {d t : Disk} {name : String} {bytes : List UInt8}
    (h : d.write name bytes = .ok t) : t.read? name = .ok (some bytes) := by
  unfold write openFile at h
  split at h
  · next id hf =>
    injection h with h
    subst h
    simp [read?, hf, Disk.bytes]
  · cases h
  · injection h with h
    subst h
    simp [read?, link, Disk.bytes]

/-- A file that was removed is not there. -/
theorem read?_remove {d t : Disk} {name : String} (h : d.remove name = .ok t) :
    t.read? name = .ok none := by
  unfold remove at h
  split at h
  · injection h with h
    subst h
    have : (d.unlink name).names.find? name = none := by
      simp [unlink, Table.find?_keepIf]
    simp [read?, this]
  · cases h

end Disk

/-! ## Steps -/

/-- One step of a procedure on files, taken as a whole or not at all. -/
inductive FileStep where
  /-- Opens a file for writing at its end. -/
  | create (name : String)
  /-- Puts all that one file holds at the end of another. -/
  | pour (source target : String)
  | write (name : String) (bytes : List UInt8)
  | rename (source target : String)
  | remove (name : String)
  | removeIfThere (name : String)
deriving DecidableEq

/-- What a step does. -/
def FileStep.run (d : Disk) : FileStep → Except Fault Disk
  | .create name => return (← d.openFile name).1
  | .pour source target => do d.append target (← d.read source)
  | .write name bytes => d.write name bytes
  | .rename source target => d.rename source target
  | .remove name => d.remove name
  | .removeIfThere name => d.removeIfThere name

/-- Takes steps in turn up to the first that fails; what was done before it stays done. -/
def FileStep.runAll (d : Disk) : List FileStep → Except Fault Unit × Disk
  | [] => (.ok (), d)
  | s :: rest =>
    match s.run d with
    | .ok d => runAll d rest
    | .error e => (.error e, d)

theorem FileStep.runAll_append (d : Disk) (l more : List FileStep) :
    runAll d (l ++ more) =
      match runAll d l with
      | (.ok _, t) => runAll t more
      | (.error e, t) => (.error e, t) := by
  induction l generalizing d with
  | nil => rfl
  | cons s rest ih =>
    simp only [List.cons_append, runAll]
    cases s.run d with
    | ok t => exact ih t
    | error e => rfl

end MailCampaign
