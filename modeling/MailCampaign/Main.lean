import MailCampaign.CommandLine
import MailCampaign.Http.Exchange
import MailCampaign.Settings.Environment
import MailCampaign.Wire.Activity

/-!
# The program

Launches an engine with the log mailer and answers the requests on the lines of its input, one line
of output for each. The files of the snapshot and of the journal are read at the start and written
back after every answer.
-/

namespace MailCampaign.Program

/-- The variables that may set something. -/
def settingVariables : List String :=
  ["NODE_ID", "API__HOST", "API__HTTP_PORT", "METRICS__ENABLED", "METRICS__PORT",
    "FLOW__SCHEDULER_INTERVAL_MS", "FLOW__BATCH_SIZE", "FLOW__DISPATCH_CONCURRENCY",
    "FLOW__MAX_SEND_RETRIES", "FLOW__RETRY_BASE_SECS", "FLOW__RETRY_MAX_SECS",
    "FLOW__IDEMPOTENCY_TTL_HOURS", "FLOW__SNAPSHOT_PATH", "FLOW__SNAPSHOT_INTERVAL_SECS",
    "FLOW__JOURNAL_FSYNC"].map fun name => "CAMPAIGN_AUTOMATION__" ++ name

/-- The variables of the environment that are set. -/
def readEnvironment : IO (List (String × String)) :=
  settingVariables.filterMapM fun name => do
    return (← IO.getEnv name).map fun value => (name, value)

/-- The bytes of a file, if it can be read. -/
def readBytes? (name : String) : IO (Option (List UInt8)) := do
  try return some (← IO.FS.readBinFile name).toList
  catch _ => return none

/-- The files that belong to a snapshot. -/
def filesOf (snapshot : String) : List String :=
  [snapshot, Journal.livePath snapshot, Journal.asidePath snapshot]

/-- The disk with the files of a snapshot. -/
def readDisk (snapshot : Option String) : IO Disk := do
  let mut disk := Disk.empty
  for name in (snapshot.map filesOf).getD [] do
    if let some bytes ← readBytes? name then
      if let .ok more := disk.write name bytes then disk := more
  return disk

/-- Writes the files of a snapshot back, and removes those that are gone. -/
def writeDisk (snapshot : Option String) (disk : Disk) : IO Unit := do
  for name in (snapshot.map filesOf).getD [] do
    match disk.read? name with
    | .ok (some bytes) => IO.FS.writeBinFile name (ByteArray.mk bytes.toArray)
    | .ok none => if (← readBytes? name).isSome then IO.FS.removeFile name
    | .error _ => pure ()

/-- The templates in a file, or none without a file; nothing when they cannot be read. -/
def readTemplates? : Option String → IO (Option (Table String Template))
  | none => return some Table.empty
  | some name => do
    let text := (← readBytes? name).bind Utf8.text?
    match text.map (Json.readText templatesDecoder) with
    | some (.value templates) => return some templates
    | _ => return none

/-- Answers line after line; the host and the time at the end. -/
partial def answerAll (site : Http.Site Nat) (input output : IO.FS.Stream) (h : Host Nat)
    (now : Instant) : IO (Host Nat × Instant) := do
  let line ← input.getLine
  if line.isEmpty then return (h, now)
  else
    let (response, h, now) := site.answerLine line h now
    output.putStrLn response.json.text
    output.flush
    writeDisk site.settings.snapshotPath h.disk
    answerAll site input output h now

/-- A number to start ids from, drawn at random. -/
def randomStart : IO Nat := do
  return (← IO.getRandomBytes 16).toList.foldl (fun n b => 256 * n + b.toNat) 0

/-- Runs the program with these settings. -/
def run (settings : Settings) (retry : RetryPolicy) (templates : Table String Template) :
    IO Unit := do
  let services : Services Nat := ⟨logMailer, .ofTable templates, retry⟩
  let site : Http.Site Nat := ⟨⟨settings.nodeId, 0⟩, services, settings.flow⟩
  let disk ← readDisk settings.flow.snapshotPath
  let start := Host.start (← randomStart) (← randomStart) disk
  let host := start.launch services settings.flow .epoch
  let (host, now) ← answerAll site (← IO.getStdin) (← IO.getStdout) host .epoch
  writeDisk settings.flow.snapshotPath (host.close settings.flow now).disk

end MailCampaign.Program

open MailCampaign Program in
/-- Runs the program for a command line. -/
def main (arguments : List String) : IO UInt32 := do
  let env ← readEnvironment
  match CommandLine.read arguments env with
  | .error e =>
    IO.eprintln ("error: " ++ e.message)
    return 2
  | .ok c =>
    let settings := c.override ((Environment.settings env).toOption.getD {})
    match RetryPolicy.ofSettings? settings.flow, ← readTemplates? c.templates with
    | some retry, some templates =>
      run settings retry templates
      return 0
    | none, _ =>
      IO.eprintln "error: a retry delay is out of range"
      return 1
    | _, none =>
      IO.eprintln "error: the templates cannot be read"
      return 1
