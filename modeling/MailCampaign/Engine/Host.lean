import MailCampaign.Engine.Dispatch
import MailCampaign.Journal.File
import MailCampaign.World.Order

/-!
# The engine with its files

A host runs the engine and puts what the world writes down into the journal at once, when there is
one. It saves snapshots, after which the journal starts over, and loads them again.
-/

namespace MailCampaign

/-- An engine at work with its disk. -/
structure Host (σ : Type) where
  session : Session σ
  disk : Disk
  /-- The snapshot file with the open file of the journal beside it, if there is a journal. -/
  journal : Option (String × Nat)

/-- The entries in a trace, the earliest first. -/
def journaled (trace : List Effect) : List Entry :=
  trace.reverse.filterMap fun
    | .entry e => some e
    | _ => none

namespace Host

variable {σ : Type}

/-- Operations with files. -/
abbrev Task (σ : Type) := ExceptT Fault (StateM (Host σ))

/-- Writes the entries of a trace to the journal, if there is one. -/
def flush (h : Host σ) (trace : List Effect) : Host σ :=
  match h.journal with
  | some (_, handle) =>
    { h with disk := (journaled trace).foldl (Journal.append handle) h.disk }
  | none => h

/-- Runs an operation of the engine; all that it writes down is in the journal afterwards. -/
def perform {α : Type} (op : Engine σ α) (h : Host σ) : Except Fault α × Host σ :=
  let before := h.session.world.trace
  let (result, s) := op.on { h.session with world := { h.session.world with trace := [] } }
  let trace := s.world.trace
  (result, flush { h with session := { s with world := { s.world with trace := trace ++ before } } }
    trace)

namespace Task

/-- Runs an operation of the engine. -/
def engine {α : Type} (op : Engine σ α) : Task σ α := ExceptT.mk (perform op)

/-- The world. -/
def world : Task σ World := do return (← get).session.world

/-- Takes steps on the disk. -/
def steps (l : List FileStep) : Task σ Unit := ExceptT.mk fun h =>
  let (result, disk) := FileStep.runAll h.disk l
  (result, { h with disk })

/-- The open journal beside a snapshot file. -/
def journalBeside (path : String) : Task σ (Option Nat) := do
  return (← get).journal.bind fun (snapshot, handle) =>
    if Journal.livePath snapshot = Journal.livePath path then some handle else none

/-- Sets the live journal aside. -/
def rotate (path : String) (handle : Nat) : Task σ Unit := ExceptT.mk fun h =>
  let (result, disk, handle) := Journal.rotate h.disk path handle
  (result, { h with disk, journal := some (path, handle) })

/-- The file that a snapshot is written to before it takes the place of the last one. -/
def temporaryPath (path : String) : String := Path.withExtension path "tmp"

/-- The steps that put a snapshot in its place. -/
def snapshotSteps (path : String) (s : Snapshot) : List FileStep :=
  [.write (temporaryPath path) (Utf8.bytes s.json.text), .rename (temporaryPath path) path]

/-- Saves a snapshot and lets the journal beside it start over. -/
def save (path : String) (now : Instant) : Task σ Unit := do
  let handle ← journalBeside path
  if let some handle := handle then rotate path handle
  steps (snapshotSteps path ((← world).snapshot now).sorted)
  if handle.isSome then steps [Journal.dropAside path]

/-- The snapshot in a file, if there is such a file. -/
def readSnapshot (d : Disk) (path : String) : Except Fault (Option Snapshot) := do
  match ← d.read? path with
  | none => return none
  | some bytes =>
    match Json.readBytes Snapshot.decoder bytes with
    | .value s => return some s
    | .fault _ => throw .unreadable

/-- The world after a snapshot and the journal beside it. -/
def loaded (w : World) (s : Option Snapshot) (entries : List Entry) : World :=
  (match s with
    | some s => (w.restore s).1
    | none => w).replayAll entries

/-- Loads a snapshot and the journal beside it; answers the number of cursors then, or nothing when
there is neither. -/
def load (path : String) : Task σ (Option Nat) := do
  let h ← get
  let s ← liftExcept (readSnapshot h.disk path)
  let entries ← liftExcept (Journal.replay h.disk path)
  if s.isNone && entries.isEmpty then return none
  else
    let w := loaded h.session.world s entries
    set { h with session := { h.session with world := w } }
    return some w.cursors.size
where
  /-- An outcome that is known. -/
  liftExcept {α : Type} (e : Except Fault α) : Task σ α := ExceptT.mk (pure e)

/-! ## The scheduler -/

/-- Prunes keys and saves a snapshot where one is kept; a failure to save it is passed over. -/
def maintain (settings : FlowSettings) (now : Instant) : Task σ Unit := do
  discard <| engine (Change.prune settings.idempotencyTtlHours now)
  match settings.snapshotPath with
  | some path => tryCatch (save path now) fun _ => pure ()
  | none => pure ()

/-- Fires batches of due timers until a batch moves nothing, at most the given number of them. -/
def drain (svc : Services σ) (batchSize : UInt64) (now : Instant) : Nat → Task σ Unit
  | 0 => pure ()
  | n + 1 => do
    let report ← engine (Engine.tick svc batchSize now)
    if 0 < report.fired then drain svc batchSize now n

/-- Runs the scheduler at an instant until nothing is left to do, at most the given number of
batches. -/
def runScheduler (svc : Services σ) (settings : FlowSettings) (now : Instant) (batches : Nat) :
    Task σ Unit := do
  maintain settings now
  drain svc settings.batchSize now batches
  maintain settings now

end Task

end Host

end MailCampaign
