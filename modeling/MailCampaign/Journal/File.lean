import MailCampaign.Json.Print
import MailCampaign.Storage.Disk
import MailCampaign.Storage.Path
import MailCampaign.Text.Utf8
import MailCampaign.Wire.Journal

/-!
# The journal on disk

A journal has a line for each entry, in a live file beside the snapshot. Before a snapshot is made
the live file is set aside, and when the snapshot is there the file set aside is dropped. Reading
takes the file set aside first and passes over lines that are no entries.
-/

namespace MailCampaign.Journal

/-- The live file beside a snapshot. -/
def livePath (snapshot : String) : String := Path.withExtension snapshot "journal"

/-- The file set aside beside a snapshot. -/
def asidePath (snapshot : String) : String :=
  Path.withExtension (livePath snapshot) "journal.prev"

/-! ## Lines -/

/-- The line of an entry. -/
def line (e : Entry) : List UInt8 := Utf8.bytes e.json.text ++ [10]

/-- The bytes up to each line feed, without it, and those after the last one. -/
def cutLines : List UInt8 → List (List UInt8)
  | [] => []
  | b :: rest =>
    if b = 10 then [] :: cutLines rest
    else
      match cutLines rest with
      | [] => [[b]]
      | l :: more => (b :: l) :: more

/-- A line without a carriage return at its end. -/
def chomp (l : List UInt8) : List UInt8 := if l.getLast? = some 13 then l.dropLast else l

/-- The lines of a file. A carriage return is dropped only before a line feed. -/
def lines (bytes : List UInt8) : List (List UInt8) :=
  let cut := cutLines bytes
  if bytes.getLast? = some 10 then cut.map chomp
  else cut.dropLast.map chomp ++ cut.getLast?.toList

/-- The entry of a line, if it is one. -/
def entryOf? (text : String) : Option Entry := (Json.readText Entry.decoder text).toOption

/-- The entries in the lines of a file. -/
def entries (bytes : List UInt8) : Except Fault (List Entry) := do
  let texts ← (lines bytes).mapM fun l =>
    match Utf8.text? l with
    | some text => .ok text
    | none => .error .storage
  return texts.filterMap entryOf?

/-- The entries in the file of a name, or none without such a file. -/
def fileEntries (d : Disk) (name : String) : Except Fault (List Entry) := do
  match ← d.read? name with
  | some bytes => entries bytes
  | none => return []

/-- The entries beside a snapshot. -/
def replay (d : Disk) (snapshot : String) : Except Fault (List Entry) := do
  let older ← fileEntries d (asidePath snapshot)
  let newer ← fileEntries d (livePath snapshot)
  return older ++ newer

/-! ## Writing -/

/-- Opens the live file beside a snapshot. -/
def openLive (d : Disk) (snapshot : String) : Except Fault (Disk × Nat) :=
  d.openFile (livePath snapshot)

/-- Writes an entry at the end of an open file. -/
def append (handle : Nat) (d : Disk) (e : Entry) : Disk := d.extend handle (line e)

/-- The steps that set the live file aside and start a new one. What is still set aside from before
is kept in front. -/
def rotateSteps (d : Disk) (snapshot : String) : List FileStep :=
  let live := livePath snapshot
  let aside := asidePath snapshot
  if d.names.contains aside then [.pour live aside, .remove live, .create live]
  else [.rename live aside, .create live]

/-- Sets the live file aside and opens a new one. Without a new file the old one stays open. -/
def rotate (d : Disk) (snapshot : String) (handle : Nat) : Except Fault Unit × Disk × Nat :=
  match FileStep.runAll d (rotateSteps d snapshot) with
  | (.error e, d) => (.error e, d, handle)
  | (.ok _, d) =>
    match openLive d snapshot with
    | .ok (d, handle) => (.ok (), d, handle)
    | .error e => (.error e, d, handle)

/-- Drops the file set aside. -/
def dropAside (snapshot : String) : FileStep := .removeIfThere (asidePath snapshot)

end MailCampaign.Journal
