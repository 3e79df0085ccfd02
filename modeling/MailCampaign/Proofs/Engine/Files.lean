import MailCampaign.Engine.Launch
import MailCampaign.Proofs.Journal.Files

/-!
# What tasks do to the disk

Saving a snapshot is a list of steps on the disk, loading one changes the world alone, and an operation
adds to the live file what it writes down.
-/

namespace MailCampaign.Host

variable {σ : Type} {h : Host σ} {path : String} {handle : Nat}

namespace Task

/-- Runs a task. -/
def on {α : Type} (t : Task σ α) (h : Host σ) : Except Fault α × Host σ := t.run.run h

theorem on_bind {α β : Type} (t : Task σ α) (f : α → Task σ β) (h : Host σ) :
    (t >>= f).on h = match t.on h with
      | (.ok a, h) => (f a).on h
      | (.error x, h) => (.error x, h) := by
  show (match (t h) with | (a, h) => ExceptT.bindCont f a h) = _
  simp only [on, ExceptT.run, StateT.run]
  rcases t h with ⟨a | a, h⟩ <;> rfl

theorem on_bind_ok {α β : Type} {t : Task σ α} {f : α → Task σ β} {h g : Host σ} {a : α}
    (ht : t.on h = (.ok a, g)) : (t >>= f).on h = (f a).on g := by rw [on_bind, ht]

/-! ## Loading -/

/-- Loading takes what is read into the world. -/
theorem on_load {snap : Option Snapshot} {entries : List Entry}
    (hs : readSnapshot h.disk path = .ok snap) (he : Journal.replay h.disk path = .ok entries) :
    ∃ answer, (load path).on h =
      (.ok answer, { h with session.world := loaded h.session.world snap entries }) := by
  have hread : (load.liftExcept (readSnapshot h.disk path) : Task σ _).on h = (.ok snap, h) := by
    rw [hs]
    rfl
  have hreplay : (load.liftExcept (Journal.replay h.disk path) : Task σ _).on h = (.ok entries, h) := by
    rw [he]
    rfl
  have hget : (get : Task σ (Host σ)).on h = (.ok h, h) := rfl
  rw [load, on_bind_ok hget, on_bind_ok hread, on_bind_ok hreplay]
  split
  · next hnothing =>
    obtain ⟨hsnap, hentries⟩ := Bool.and_eq_true_iff.1 hnothing
    rw [Option.isNone_iff_eq_none.1 hsnap, List.isEmpty_iff.1 hentries]
    exact ⟨none, rfl⟩
  · exact ⟨some _, rfl⟩

/-! ## Saving -/

/-- Whether the journal of a host stands beside a snapshot. -/
def journals (h : Host σ) (path : String) : Bool :=
  h.journal.any fun (snapshot, _) => Journal.livePath snapshot = Journal.livePath path

/-- The steps in which a host saves a snapshot. -/
def saveSteps (h : Host σ) (path : String) (now : Instant) : List FileStep :=
  let snap := (h.session.world.snapshot now).sorted
  if journals h path then
    Journal.rotateSteps h.disk path ++ snapshotSteps path snap ++ [Journal.dropAside path]
  else snapshotSteps path snap

theorem on_world (h : Host σ) : (world : Task σ World).on h = (.ok h.session.world, h) := rfl

theorem on_steps (l : List FileStep) (h : Host σ) :
    (steps l).on h = ((FileStep.runAll h.disk l).1, { h with disk := (FileStep.runAll h.disk l).2 }) := rfl

/-- A file that was opened is opened again as it is. -/
theorem find?_of_openFile {d t : Disk} {name : String} {id : Nat} (h : d.openFile name = .ok (t, id)) :
    t.names.find? name = some (.file id) := by
  unfold Disk.openFile at h
  split at h
  · next hid =>
    cases h
    exact hid
  · cases h
  · cases h
    exact Table.find?_insert_self ..

/-- Setting the live file aside takes its steps, and then the new live file is open. -/
theorem rotate_eq (d : Disk) (path : String) (handle : Nat) :
    ∃ handle', Journal.rotate d path handle = ((FileStep.runAll d (Journal.rotateSteps d path)).1,
        (FileStep.runAll d (Journal.rotateSteps d path)).2, handle') ∧
      ((FileStep.runAll d (Journal.rotateSteps d path)).1 = .ok () →
        (FileStep.runAll d (Journal.rotateSteps d path)).2.names.find? (Journal.livePath path) =
          some (.file handle')) := by
  have hlast : ∃ l, Journal.rotateSteps d path = l ++ [.create (Journal.livePath path)] := by
    unfold Journal.rotateSteps
    dsimp only
    split
    · exact ⟨[_, _], rfl⟩
    · exact ⟨[_], rfl⟩
  obtain ⟨l, hl⟩ := hlast
  rw [Journal.rotate, hl, FileStep.runAll_append]
  rcases FileStep.runAll d l with ⟨result, t⟩
  cases result with
  | error e => exact ⟨handle, rfl, fun he => by cases he⟩
  | ok _ =>
    dsimp only
    cases hopen : t.openFile (Journal.livePath path) with
    | error e =>
      have hrun : FileStep.runAll t [.create (Journal.livePath path)] = (.error e, t) := by
        rw [FileStep.runAll, FileStep.run, hopen]
        rfl
      rw [hrun]
      exact ⟨handle, rfl, fun he => by cases he⟩
    | ok opened =>
      obtain ⟨u, id⟩ := opened
      have hrun : FileStep.runAll t [.create (Journal.livePath path)] = (.ok (), u) := by
        rw [FileStep.runAll, FileStep.run, hopen]
        rfl
      have hid := find?_of_openFile hopen
      have hagain : Journal.openLive u path = .ok (u, id) := by
        rw [Journal.openLive, Disk.openFile, hid]
      rw [hrun]
      dsimp only
      rw [hagain]
      exact ⟨id, rfl, fun _ => hid⟩

theorem on_steps_append (l more : List FileStep) (h : Host σ) :
    (steps l >>= fun _ => steps more).on h = (steps (l ++ more)).on h := by
  rw [on_bind, on_steps, on_steps, FileStep.runAll_append]
  rcases FileStep.runAll h.disk l with ⟨result, d⟩
  cases result <;> rfl

theorem on_journalBeside (h : Host σ) (path : String) :
    ∃ found, (journalBeside path).on h = (.ok found, h) ∧ found.isSome = journals h path := by
  refine ⟨_, rfl, ?_⟩
  unfold journals
  cases h.journal with
  | none => rfl
  | some j =>
    show (if Journal.livePath j.1 = Journal.livePath path then some j.2 else none).isSome =
      decide (Journal.livePath j.1 = Journal.livePath path)
    split
    · next he => exact (decide_eq_true he).symm
    · next he => exact (decide_eq_false he).symm

/-- The snapshot is saved once the live file was set aside. -/
theorem on_save_rotated (hj : journals h path = true) (now : Instant) :
    ∃ handle', ((FileStep.runAll h.disk (Journal.rotateSteps h.disk path)).1 = .ok () →
        (FileStep.runAll h.disk (Journal.rotateSteps h.disk path)).2.names.find?
          (Journal.livePath path) = some (.file handle')) ∧
      (save path now).on h = ((FileStep.runAll h.disk (saveSteps h path now)).1,
        { h with
          disk := (FileStep.runAll h.disk (saveSteps h path now)).2
          journal := some (path, handle') }) := by
  obtain ⟨found, hbeside, hopen⟩ := on_journalBeside h path
  rw [hj] at hopen
  obtain ⟨handle, rfl⟩ := Option.isSome_iff_exists.1 hopen
  obtain ⟨handle', hrotate, hlive⟩ := rotate_eq h.disk path handle
  refine ⟨handle', hlive, ?_⟩
  have hrotated : (rotate path handle).on h =
      ((FileStep.runAll h.disk (Journal.rotateSteps h.disk path)).1,
        { h with
          disk := (FileStep.runAll h.disk (Journal.rotateSteps h.disk path)).2
          journal := some (path, handle') }) := by
    show ((Journal.rotate h.disk path handle).1, ({ h with
      disk := (Journal.rotate h.disk path handle).2.1
      journal := some (path, (Journal.rotate h.disk path handle).2.2) } : Host σ)) = _
    rw [hrotate]
  rw [saveSteps, if_pos hj, List.append_assoc, FileStep.runAll_append, save, on_bind_ok hbeside]
  show (rotate path handle >>= fun _ => world >>= fun w =>
    steps (snapshotSteps path (w.snapshot now).sorted) >>= fun _ =>
      steps [Journal.dropAside path]).on h = _
  rw [on_bind, hrotated]
  rcases FileStep.runAll h.disk (Journal.rotateSteps h.disk path) with ⟨result, t⟩
  cases result with
  | error e => rfl
  | ok _ =>
    show (world >>= fun w => steps (snapshotSteps path (w.snapshot now).sorted) >>= fun _ =>
      steps [Journal.dropAside path]).on { h with disk := t, journal := some (path, handle') } = _
    rw [on_bind_ok (on_world _), on_steps_append]
    rfl

/-- Saving a snapshot takes these steps, up to the first that fails. -/
theorem on_save (h : Host σ) (path : String) (now : Instant) :
    ∃ journal, (save path now).on h =
      ((FileStep.runAll h.disk (saveSteps h path now)).1,
        { h with disk := (FileStep.runAll h.disk (saveSteps h path now)).2, journal }) := by
  cases hj : journals h path with
  | true =>
    obtain ⟨handle', -, hsave⟩ := on_save_rotated hj now
    exact ⟨_, hsave⟩
  | false =>
    obtain ⟨found, hbeside, hopen⟩ := on_journalBeside h path
    rw [hj] at hopen
    obtain rfl := Option.isSome_eq_false_iff.1 hopen |> Option.isNone_iff_eq_none.1
    refine ⟨h.journal, ?_⟩
    rw [save, on_bind_ok hbeside, saveSteps, hj]
    show (world >>= fun w => steps (snapshotSteps path (w.snapshot now).sorted) >>= fun _ =>
      pure ()).on h = _
    rw [on_bind_ok (on_world h), on_bind, on_steps, if_neg Bool.false_ne_true]
    rcases FileStep.runAll h.disk (snapshotSteps path (h.session.world.snapshot now).sorted) with
      ⟨result, t⟩
    cases result <;> rfl

end Task

end MailCampaign.Host
