import MailCampaign.Engine.Host

/-!
# Launching an engine

An engine is launched on what it finds on its disk: it opens its journal, loads the snapshot and the
entries since, and goes on with the steps that were interrupted. What fails on the way is passed
over.
-/

namespace MailCampaign.Host

variable {σ : Type}

/-- A host in an empty world. -/
def start (firstId : Nat) (mailer : σ) (disk : Disk) : Host σ :=
  ⟨⟨World.empty firstId, mailer⟩, disk, none⟩

/-- The host with the journal beside a snapshot open. -/
def withJournal (h : Host σ) (path : String) : Host σ :=
  match Journal.openLive h.disk path with
  | .ok (disk, handle) => { h with disk, journal := some (path, handle) }
  | .error _ => h

/-- The host after a task, whatever came of it. -/
def after {α : Type} (t : Task σ α) (h : Host σ) : Host σ := (t.run.run h).2

/-- The host when its engine is launched with these settings. -/
def launch (svc : Services σ) (settings : FlowSettings) (now : Instant) (h : Host σ) : Host σ :=
  let found := match settings.snapshotPath with
    | some path => after (Task.load path) (h.withJournal path)
    | none => h
  after (Task.engine (Engine.recover svc now)) found

/-- The host after a last snapshot, where one is kept. -/
def close (settings : FlowSettings) (now : Instant) (h : Host σ) : Host σ :=
  match settings.snapshotPath with
  | some path => after (Task.save path now) h
  | none => h

end MailCampaign.Host
