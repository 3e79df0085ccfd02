import MailCampaign.Proofs.Engine.Files
import MailCampaign.Proofs.Run.Restart

/-!
# Crashes while a snapshot is saved

An engine with a journal performs operations and saves snapshots, and after a crash another one goes
on from what is on the disk. Its disk stores a snapshot and entries that back its world, between
operations and wherever saving is left off. So a crash loses nothing, also after other crashes that
left an older file set aside.
-/

namespace MailCampaign.Host

open Journal

variable {σ : Type} {h : Host σ} {path : String}

/-- The disk when a host crashes after that many steps of saving a snapshot. -/
def crashed (h : Host σ) (path : String) (now : Instant) (k : Nat) : Disk :=
  (FileStep.runAll h.disk ((Task.saveSteps h path now).take k)).2

/-- What a host with a journal beside a snapshot does next: it performs an operation or saves a
snapshot, or it crashes while it saves one and starts over on what is on the disk. -/
inductive Step (path : String) : Host σ → Host σ → Prop
  | perform {h : Host σ} (svc : Services σ) (op : Operation) : op.Fresh h.session.world →
      Step path h (after (Task.engine (op.perform svc)) h)
  | save {h : Host σ} (now : Instant) : Step path h (after (Task.save path now) h)
  | restart {h : Host σ} (now : Instant) (k firstId : Nat) (mailer : σ) :
      Step path h (after (Task.load path)
        ((Host.start firstId mailer (h.crashed path now k)).withJournal path))

/-- The hosts that an engine with a journal comes to when it starts where there are no files yet. -/
inductive Life (path : String) : Host σ → Prop
  | start {disk : Disk} (firstId : Nat) (mailer : σ) : disk.Sound →
      (∀ name ∈ filesBeside path, disk.names.find? name = none) →
      Life path ((Host.start firstId mailer disk).withJournal path)
  | step {h g : Host σ} : Life path h → Step path h g → Life path g

/-- A value of a slot was forgotten by pruning on the way of a life. -/
def Forgot (path : String) (h : Host σ) (slot : Slot) (x : Datum) : Prop :=
  ∃ (g t : Host σ) (svc : Services σ) (ttlHours : UInt64) (now : Instant), Life path g ∧
    t = after (Task.engine ((Operation.prune ttlHours now).perform svc)) g ∧
    Relation.ReflTransGen (Step path) t h ∧
    g.session.world.at? slot = some x ∧ t.session.world.at? slot = none

theorem Forgot.step {g : Host σ} {slot : Slot} {x : Datum} (h : g.Forgot path slot x)
    {t : Host σ} (ht : Step path g t) : t.Forgot path slot x := by
  obtain ⟨u, v, svc, ttlHours, now, hu, hv, hg, hslot⟩ := h
  exact ⟨u, v, svc, ttlHours, now, hu, hv, hg.tail ht, hslot⟩

/-- A host whose disk backs its world, with the live file of its journal open. -/
structure Kept (h : Host σ) (path : String) : Prop where
  tidy : h.session.world.Tidy
  stored : ∃ snap older entries handle, h.journal = some (path, handle) ∧
    h.disk.Stores path snap older (some entries) ∧
    h.disk.names.find? (livePath path) = some (.file handle) ∧
    h.session.world.Backed (h.Forgot path) snap (older.getD [] ++ entries)

/-! ## Starting -/

/-- Opening the journal makes a live file if there is none. -/
theorem withJournal_eq {d : Disk} {snap : Option Snapshot} {older newer : Option (List Entry)}
    (h : d.Stores path snap older newer) (hp : Suits path) (firstId : Nat) (mailer : σ) :
    ∃ t handle, (Host.start firstId mailer d).withJournal path =
        ⟨⟨World.empty firstId, mailer⟩, t, some (path, handle)⟩ ∧
      t.Stores path snap older (some (newer.getD [])) ∧
      t.names.find? (livePath path) = some (.file handle) := by
  obtain ⟨t, handle, hopen, ht, hid⟩ := h.openLive hp
  refine ⟨t, handle, ?_, ht, hid⟩
  rw [withJournal]
  dsimp only [Host.start]
  rw [hopen]

theorem loaded_empty (n : Nat) (snap : Option Snapshot) (entries : List Entry) :
    Task.loaded (World.empty n) snap entries = (World.base n snap).replayAll entries := by
  cases snap <;> rfl

/-- Loading into an empty world what a disk stores. -/
theorem on_load_empty {d : Disk} {snap : Option Snapshot} {older newer : Option (List Entry)}
    (h : d.Stores path snap older newer) (firstId : Nat) (mailer : σ)
    (journal : Option (String × Nat)) :
    ∃ answer, (Task.load path).on ⟨⟨World.empty firstId, mailer⟩, d, journal⟩ =
      (.ok answer, ⟨⟨(World.base firstId snap).replayAll (older.getD [] ++ newer.getD []), mailer⟩,
        d, journal⟩) := by
  obtain ⟨answer, hload⟩ := Task.on_load
    (h := (⟨⟨World.empty firstId, mailer⟩, d, journal⟩ : Host σ)) h.readSnapshot h.replay
  exact ⟨answer, loaded_empty firstId snap _ ▸ hload⟩

/-! ## Operations -/

/-- The session in which a host performs an operation, without what was written down before. -/
def bare (h : Host σ) : Session σ := { h.session with world.trace := [] }

theorem after_engine {handle : Nat} (hj : h.journal = some (path, handle)) (e : Engine σ PUnit) :
    after (Task.engine e) h =
      ⟨{ (e.on h.bare).2 with
          world.trace := (e.on h.bare).2.world.trace ++ h.session.world.trace },
        (journaled (e.on h.bare).2.world.trace).foldl (Journal.append handle) h.disk,
        some (path, handle)⟩ := by
  show (Host.perform e h).2 = _
  unfold Host.perform flush
  rw [hj]
  rfl

theorem fresh_bare {op : Operation} (hfresh : op.Fresh h.session.world) : op.Fresh h.bare.world := by
  cases op <;> exact hfresh

/-- What an operation loses of the world and of what it writes down was forgotten by pruning. -/
theorem Life.lost (hh : Life path h) {handle : Nat} (hj : h.journal = some (path, handle))
    (svc : Services σ) {op : Operation} (hfresh : op.Fresh h.session.world) (slot : Slot) (x : Datum)
    (hx : (written (journaled ((op.perform svc).on h.bare).2.world.trace) slot).or
      (h.bare.world.at? slot) = some x) :
    ((op.perform svc).on h.bare).2.world.at? slot = some x ∨
      (after (Task.engine (op.perform svc)) h).Forgot path slot x := by
  obtain ⟨more, hmore, hloses⟩ := Operation.loses svc (s := h.bare) (fresh_bare hfresh)
  have hmore : journaled ((op.perform svc).on h.bare).2.world.trace = more := hmore
  rw [hmore] at hx
  rcases hloses slot x hx with hkept | ⟨ttlHours, now, rfl, hold, hnone⟩
  · exact .inl hkept
  · refine .inr ⟨h, _, svc, ttlHours, now, hh, rfl, .refl, ?_, ?_⟩
    · exact (World.at?_trace _ [] slot).symm.trans hold
    · rw [after_engine hj]
      exact (World.at?_trace _ _ slot).trans hnone

/-- An operation keeps the disk in step with the world. -/
theorem Kept.perform (hk : h.Kept path) (hh : Life path h) (hp : Suits path) (svc : Services σ)
    {op : Operation} (hfresh : op.Fresh h.session.world) :
    (after (Task.engine (op.perform svc)) h).Kept path := by
  obtain ⟨htidy, snap, older, entries, handle, hj, hstores, hid, hbacked⟩ := hk
  have hpostings : h.bare.world.Postings op.Prunes ((op.perform svc).on h.bare).2.world :=
    op.perform_postings (fresh_bare hfresh)
  have hgoes : ∀ slot x, h.Forgot path slot x →
      (after (Task.engine (op.perform svc)) h).Forgot path slot x :=
    fun slot x hf => hf.step (.perform svc op hfresh)
  have hafter := (hbacked.retrace []).postings (htidy.retrace []) rfl hpostings hgoes
    (hh.lost hj svc hfresh)
  obtain ⟨hmore, hid'⟩ := hstores.appendAll hp hid
    (journaled ((op.perform svc).on h.bare).2.world.trace)
  rw [List.append_assoc] at hafter
  rw [after_engine hj] at hafter ⊢
  exact ⟨(hpostings.tidy (htidy.retrace [])).retrace _, snap, older, _, handle, rfl, hmore, hid',
    hafter.retrace _⟩

/-! ## Saving and starting over -/

/-- Saving makes the journal start over, and wherever it is left off the disk holds the world. -/
theorem Kept.save (hk : h.Kept path) (hp : Suits path) (now : Instant) :
    (after (Task.save path now) h).Kept path ∧
      ∀ k, (h.crashed path now k).Holds path h.session.world (h.Forgot path) := by
  obtain ⟨htidy, snap, older, entries, handle, hjournal, hstores, hid, hbacked⟩ := hk
  have hbeside : Task.journals h path = true := by
    unfold Task.journals
    rw [hjournal]
    exact decide_eq_true rfl
  obtain ⟨t, u, hrotate, hpasses, hu, hempty, hlive⟩ := hstores.save hp hbacked htidy
    (h.session.world.lists_snapshot now).sorted
  have hsteps : Task.saveSteps h path now = rotateSteps h.disk path ++
      Task.snapshotSteps path (h.session.world.snapshot now).sorted ++ [dropAside path] :=
    if_pos hbeside
  rw [← hsteps] at hpasses
  obtain ⟨handle', hopened, hsave⟩ := Task.on_save_rotated hbeside now
  rw [hrotate] at hopened
  rw [hpasses.runAll] at hsave
  have hafter : after (Task.save path now) h = { h with disk := u, journal := some (path, handle') } :=
    congrArg Prod.snd hsave
  have hforgot := hempty.mono fun slot x hf => Forgot.step hf (.save (h := h) now)
  rw [hafter] at hforgot ⊢
  exact ⟨⟨htidy, _, none, [], handle', rfl, hu, hlive handle' (hopened rfl), hforgot⟩,
    fun k => hpasses.take k⟩

/-- A host that starts over on a disk that holds a world loads what restores the world. -/
theorem kept_restart {d : Disk} {w : World} {forgot : Slot → Datum → Prop}
    (hd : d.Holds path w forgot) (hw : w.Tidy) (hp : Suits path) (firstId : Nat) (mailer : σ) :
    (after (Task.load path) ((Host.start firstId mailer d).withJournal path)).Kept path := by
  obtain ⟨snap, older, newer, hstores, hbacked⟩ := hd
  obtain ⟨t, handle, hstart, ht, hid⟩ := withJournal_eq hstores hp firstId mailer
  obtain ⟨answer, hload⟩ := on_load_empty ht firstId mailer (some (path, handle))
  have hafter : after (Task.load path) ((Host.start firstId mailer d).withJournal path) =
      ⟨⟨(World.base firstId snap).replayAll (older.getD [] ++ newer.getD []), mailer⟩, t,
        some (path, handle)⟩ := by
    rw [hstart]
    exact congrArg Prod.snd hload
  obtain ⟨htidy, hrestored⟩ := hbacked.restored hw firstId
  rw [hafter]
  exact ⟨htidy, snap, older, newer.getD [], handle, rfl, ht, hid, hrestored⟩

/-! ## Lives -/

theorem Life.kept (hh : Life path h) (hp : Suits path) : h.Kept path := by
  induction hh with
  | @start disk firstId mailer hsound hnone =>
    have hview {name : String} (hn : name ∈ filesBeside path) : disk.view name = none := by
      rw [Disk.view, hnone name hn]
      rfl
    have hfree : ∀ name ∈ filesBeside path, disk.Free name := by
      intro name hn hf
      rw [hnone name hn] at hf
      cases hf
    have hstores : disk.Stores path none none none := ⟨hsound, hfree, hview (by simp [filesBeside]),
      hview (by simp [filesBeside]), hview (by simp [filesBeside])⟩
    obtain ⟨t, handle, heq, ht, hid⟩ := withJournal_eq hstores hp firstId mailer
    rw [heq]
    exact ⟨World.tidy_empty firstId, none, none, [], handle, rfl, ht, hid, World.backed_empty firstId⟩
  | step hh hstep ih =>
    cases hstep with
    | perform svc op hfresh => exact ih.perform hh hp svc hfresh
    | save now => exact (ih.save hp now).1
    | restart now k firstId mailer =>
      exact kept_restart ((ih.save hp now).2 k) ih.tidy hp firstId mailer

/-- Loading succeeds on a host and restores a world; the keys that come back besides were forgotten. -/
def Recovers (h : Host σ) (path : String) (w : World) (forgot : Slot → Datum → Prop) : Prop :=
  ∃ answer t, (Task.load path).on h = (.ok answer, t) ∧ t.session.world.Restores w ∧
    ∀ slot x, t.session.world.at? slot = some x →
      w.at? slot = some x ∨ w.at? slot = none ∧ forgot slot x

/-- **A crash while a snapshot is saved loses nothing.** Whatever an engine with a journal has done,
and wherever saving a snapshot is left off, an empty engine that loads what is on the disk, with or
without opening the journal first, has the world of the engine that crashed. What it has besides are
keys that a pruning of the engine, or of one before it, has forgotten. -/
theorem Life.crash_recovers (hh : Life path h) (hp : Suits path) (now : Instant) (k firstId : Nat)
    (mailer : σ) :
    (Host.start firstId mailer (h.crashed path now k)).Recovers path h.session.world
        (h.Forgot path) ∧
      ((Host.start firstId mailer (h.crashed path now k)).withJournal path).Recovers path
        h.session.world (h.Forgot path) := by
  have hk := hh.kept hp
  obtain ⟨snap, older, newer, hstores, hbacked⟩ := (hk.save hp now).2 k
  have hrestores := hbacked.restores hk.tidy firstId
  have hbesides := fun slot x => hbacked.besides firstId (s := slot) (x := x)
  constructor
  · obtain ⟨answer, hload⟩ := on_load_empty hstores firstId mailer none
    exact ⟨answer, _, hload, hrestores, hbesides⟩
  · obtain ⟨t, handle, hstart, ht, -⟩ := withJournal_eq hstores hp firstId mailer
    obtain ⟨answer, hload⟩ := on_load_empty ht firstId mailer (some (path, handle))
    rw [hstart]
    exact ⟨answer, _, hload, hrestores, hbesides⟩

/-- A host whose engine has enrolled a lead. -/
def enrolled : Host Nat :=
  let launched := (Host.start 0 0 Disk.empty).withJournal "state.json"
  let activated := after (Task.engine
    ((Operation.activate (.ofNat 7) .followUp .epoch).perform .plain)) launched
  after (Task.engine ((Operation.enroll (.ofNat 7) .ada .epoch).perform .plain)) activated

/-- A host that started over after a crash that left the journal set aside and no new live file. -/
def restarted : Host Nat :=
  after (Task.load "state.json")
    ((Host.start 5 0 (enrolled.crashed "state.json" .epoch 1)).withJournal "state.json")

/-- Another crash, between the steps that pour the new live file into the old one and remove it. -/
theorem Life.crash_recovers_again :
    Life "state.json" restarted ∧ Suits "state.json" ∧
    (Host.start 9 0 (restarted.crashed "state.json" .epoch 1)).Recovers "state.json"
        restarted.session.world (restarted.Forgot "state.json") ∧
      ((Host.start 9 0 (restarted.crashed "state.json" .epoch 1)).withJournal "state.json").Recovers
        "state.json" restarted.session.world (restarted.Forgot "state.json") := by
  have hlife : Life "state.json" restarted :=
    (((Life.start 0 0 Disk.sound_empty fun _ _ => rfl).step
      (.perform .plain (.activate (.ofNat 7) .followUp .epoch) rfl)).step
        (.perform .plain (.enroll (.ofNat 7) .ada .epoch) trivial)).step (.restart .epoch 1 5 0)
  have hsuits : Suits "state.json" := ⟨by decide +kernel, by decide +kernel, by decide +kernel⟩
  exact ⟨hlife, hsuits, Life.crash_recovers hlife hsuits .epoch 1 9 0⟩

end MailCampaign.Host
