import MailCampaign.Proofs.Engine.Posted
import MailCampaign.Proofs.Run.WellFormed
import MailCampaign.Proofs.World.Restore
import MailCampaign.Proofs.World.Tidy

/-!
# Worlds that engines come to

Engines bring a world from one to the next by their operations, and by loading snapshots and taking
in entries of journals, after a crash or not. Whatever the mailers, the snapshots and the entries
are, the timers and the lists of leads stay those of the cursors, and leads are found under their
ids (`Reachable.inOrder`).

More is known of worlds that descend from what engines wrote (`Lineage`). There an engine starts in an
empty world, with what a snapshot of a world restores, or with what the journal of an engine rebuilds
on the world in which that one started, as far as it was written. The worlds that engines come to from
there by their operations, with any mailers, are sound, and so is whatever part of their journal is
replayed. So engines may take each other's place again and again.
-/

namespace MailCampaign

/-- Leads are found under their ids. -/
theorem Table.Keyed.insertAll {t : Table String Lead} (h : t.Keyed Lead.id) (l : List Lead) :
    (t.insertAll (l.map fun lead => (lead.id, lead))).Keyed Lead.id := by
  induction l generalizing t with
  | nil => exact h
  | cons lead rest ih => exact ih (h.insert lead)

namespace World

variable {w v : World}

/-! ## Any snapshots and entries -/

/-- A world whose timers and lists of leads are in order. -/
structure InOrder (w : World) : Prop where
  indexed : w.cursors.Indexed
  leads : w.leads.Keyed Lead.id

theorem inOrder_empty (n : Nat) : (empty n).InOrder :=
  ⟨CursorStore.indexed_empty, Table.keyed_empty _⟩

theorem Postings.inOrder {prunes : Prop} (h : w.Postings prunes v) (hw : w.InOrder) : v.InOrder :=
  h.preserves hw fun _ _ _ h hw => ⟨h.indexed hw.indexed, h.leads_keyed hw.leads⟩

theorem InOrder.restore (hw : w.InOrder) (snap : Snapshot) : (w.restore snap).1.InOrder :=
  ⟨hw.indexed.restore _, hw.leads.insertAll snap.leads⟩

theorem InOrder.replay (hw : w.InOrder) (e : Entry) : (w.replay e).InOrder := by
  cases e with
  | lead l => exact ⟨hw.indexed, hw.leads.insert l⟩
  | cursor c =>
    unfold World.replay
    dsimp only
    split
    · exact ⟨hw.indexed.put c, hw.leads⟩
    · exact hw
  | _ => exact ⟨hw.indexed, hw.leads⟩

theorem InOrder.replayAll (hw : w.InOrder) (entries : List Entry) :
    (w.replayAll entries).InOrder := by
  induction entries generalizing w with
  | nil => exact hw
  | cons e rest ih => exact ih (hw.replay e)

/-- The worlds that engines come to, with any mailers, snapshots and entries. -/
inductive Reachable : World → Prop
  | empty (n : Nat) : Reachable (empty n)
  | perform {w : World} {σ : Type} (svc : Services σ) (mailer : σ) (op : Operation) : Reachable w →
      op.Fresh w → Reachable ((op.perform svc).on ⟨w, mailer⟩).2.world
  | restore {w : World} (snap : Snapshot) : Reachable w → Reachable (w.restore snap).1
  | replay {w : World} (entries : List Entry) : Reachable w → Reachable (w.replayAll entries)

/-- Reachable worlds are in order. -/
theorem Reachable.inOrder (h : w.Reachable) : w.InOrder := by
  induction h with
  | empty n => exact inOrder_empty n
  | perform svc mailer op _ hfresh ih => exact (op.perform_postings hfresh).inOrder ih
  | restore snap _ ih => exact ih.restore snap
  | replay entries _ ih => exact ih.replayAll entries

/-! ## What engines wrote -/

variable {base : World} {snap : Snapshot} {l : List Entry}

/-- The worlds that engines come to by operations from where an engine started. -/
inductive Lineage : World → World → Prop
  | empty (n : Nat) : Lineage (empty n) (empty n)
  | perform {base w : World} {σ : Type} (svc : Services σ) (mailer : σ) (op : Operation) :
      Lineage base w → op.Fresh w → Lineage base ((op.perform svc).on ⟨w, mailer⟩).2.world
  /-- An engine starts from a snapshot that lists the world of another one. -/
  | restored {base w : World} {snap : Snapshot} (n : Nat) : Lineage base w → snap.Lists w →
      Lineage ((World.empty n).restore snap).1 ((World.empty n).restore snap).1
  /-- An engine starts from the journal of another one, or the part of it that was written. -/
  | replayed {base w : World} {l : List Entry} (n : Nat) : Lineage base w →
      l <+: journaled w.trace →
      Lineage { base.replayAll l with nextId := n } { base.replayAll l with nextId := n }

theorem Mirrors.refl (w : World) : w.Mirrors w := ⟨fun _ => rfl, fun _ => rfl⟩

/-- Replaying writes nothing down. -/
theorem trace_replayAll (w : World) (l : List Entry) : (w.replayAll l).trace = w.trace := by
  induction l generalizing w with
  | nil => rfl
  | cons e rest ih =>
    refine (ih (w.replay e)).trans ?_
    cases e with
    | cursor c =>
      unfold replay
      dsimp only
      split <;> rfl
    | _ => rfl

theorem Sound.versioned (hw : w.Sound) : w.Versioned := by
  intro key c hc
  obtain ⟨g, node, hat, -⟩ := (hw key c hc).placed
  simp [at?, hat.version]

/-- A snapshot restores the flows and cursors of a sound world. -/
theorem Sound.mirrors_restore (hw : w.Sound) (h : snap.Lists w) (n : Nat) :
    ((World.empty n).restore snap).1.Mirrors w := by
  have hflows := find?_restored_flows h
  refine ⟨hflows, fun key => ?_⟩
  show (CursorStore.empty.restore (loadable (snap.flows.foldl FlowStore.accept FlowStore.empty)
    snap)).find? key = _
  rw [loadable_eq h hw.versioned hflows]
  exact find?_restored_cursors h key

/-- What is known of a world and of where its engine started. -/
structure Lineage.Known (base w : World) : Prop where
  sound : w.Sound
  chronicled : w.Chronicled base
  inOrder : w.InOrder
  baseInOrder : base.InOrder
  unwritten : base.trace = []

/-- Where an engine starts. -/
theorem Lineage.Known.start (hw : w.Sound) (ho : w.InOrder) (ht : w.trace = []) : Known w w :=
  ⟨hw, .start (.refl w) hw (by rw [ht]; rfl), ho, ho, ht⟩

theorem Lineage.known (h : base.Lineage w) : Known base w := by
  induction h with
  | empty n => exact .start (sound_empty n) (inOrder_empty n) rfl
  | @perform base w σ svc mailer op _ hfresh ih =>
    have hcourse : w.Course svc.retry Scope.all.mailing ((op.perform svc).on ⟨w, mailer⟩).2.world :=
      (op.perform_trail (s := ⟨w, mailer⟩) hfresh).course
    have hboth := hcourse.preserves (motive := fun u => u.Sound ∧ u.Chronicled base)
      ⟨ih.sound, ih.chronicled⟩ fun u v hshift hu => ⟨hshift.sound hu.1, hshift.chronicled hu.1 hu.2⟩
    exact ⟨hboth.1, hboth.2, (op.perform_postings (s := ⟨w, mailer⟩) hfresh).inOrder ih.inOrder,
      ih.baseInOrder, ih.unwritten⟩
  | @restored base w snap n _ hsnap ih =>
    exact .start ((ih.sound.mirrors_restore hsnap n).sound ih.sound)
      ((inOrder_empty n).restore snap) rfl
  | @replayed base w l n _ hl ih =>
    have hreplayed := ih.baseInOrder.replayAll l
    exact .start (ih.chronicled.sound l hl) ⟨hreplayed.indexed, hreplayed.leads⟩
      ((base.trace_replayAll l).trans ih.unwritten)

theorem Lineage.root (h : base.Lineage w) : base.Lineage base := by
  induction h with
  | empty n => exact .empty n
  | perform _ _ _ _ _ ih => exact ih
  | restored n h hsnap => exact .restored n h hsnap
  | replayed n h hl => exact .replayed n h hl

/-- A world comes by postings from where its engine started. -/
theorem Lineage.postings (h : base.Lineage w) : base.Postings True w := by
  induction h with
  | @perform base w σ svc mailer op _ hfresh ih =>
    have hstep : w.Postings op.Prunes ((op.perform svc).on ⟨w, mailer⟩).2.world :=
      op.perform_postings (s := ⟨w, mailer⟩) hfresh
    exact ih.trans (hstep.mono fun _ => trivial)
  | _ => exact .refl

end World

/-! ## The worlds of runs -/

namespace Run

variable {σ : Type} {svc : Services σ} {allowed : Fault → Prop} {s : Session (σ × List Moment)}

/-- The world of a run is reachable. -/
theorem reachable (h : Run svc allowed s) : s.world.Reachable := by
  induction h with
  | start firstId mailer => exact .empty firstId
  | @step s op _ hfresh _ ih => exact .perform svc.recording s.mailer op ih hfresh

/-- The world of a run descends from an empty one. -/
theorem lineage (h : Run svc allowed s) : ∃ n, (World.empty n).Lineage s.world := by
  induction h with
  | start firstId mailer => exact ⟨firstId, .empty firstId⟩
  | @step s op _ hfresh _ ih =>
    obtain ⟨n, hn⟩ := ih
    exact ⟨n, .perform svc.recording s.mailer op hn hfresh⟩

end Run

end MailCampaign
