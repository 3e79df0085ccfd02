import MailCampaign.Proofs.Cursor.Walk
import MailCampaign.Proofs.Run.Log

/-!
# Histories in runs

At every moment of a run, also while a mail is out, the history of each cursor retraces its way from
the entry of its flow. Every small step has it go on so (`World.Shift.walked`). And as an operation adds
lines of its own instant alone, the times of a history ascend when those of the operations do
(`Played.histories_retrace`).
-/

namespace MailCampaign

variable {σ : Type}

namespace World

variable {policy : RetryPolicy} {scope : Scope} {w v : World}

/-- The history of every cursor tells a walk to where it is. -/
def Walked (w : World) : Prop := w.Each fun g c => g.Walk c.history c.nodeId c.state

/-- Every small step of a sound world has the walks go on. -/
theorem Shift.walked (h : w.Shift policy scope v) (hsound : w.Sound) (hw : w.Walked) : v.Walked :=
  h.each hsound (fun _ _ _ _ _ => .start) (fun _ _ _ hg _ ht hwalk => (ht.tells hg).walk hwalk)
    (fun g _ reason now hr hwalk => (Cursor.tells_canceled g reason now hr).walk hwalk)
    (fun g c e hwalk => (Cursor.tells_counted g e c).walk hwalk) hw

/-- The lines of every history are of some times, and they stand in the order of their times. -/
structure Timely (times : List Instant) (w : World) : Prop where
  within : ∀ key, ∀ s ∈ w.history key, s.time ∈ times
  ordered : ∀ key, (w.history key).Pairwise fun a b => a.time ≤ b.time

theorem Timely.of_goes {times : List Instant} {now : Instant} (h : w.Timely times)
    (hgoes : ∀ key, (w.story key).Goes now (v.story key)) (hlast : ∀ t ∈ times, t ≤ now) :
    v.Timely (now :: times) := by
  have hgrown : ∀ key, ∃ l, v.history key = w.history key ++ l ∧ ∀ s ∈ l, s.time = now :=
    fun key => (hgoes key).history
  refine ⟨fun key s hs => ?_, fun key => ?_⟩ <;> obtain ⟨l, hl, htimes⟩ := hgrown key
  · rw [hl] at hs
    rcases List.mem_append.1 hs with hs | hs
    · exact List.mem_cons_of_mem _ (h.within key s hs)
    · exact htimes s hs ▸ List.mem_cons_self
  · rw [hl]
    refine List.pairwise_append.2 ⟨h.ordered key, ?_, fun a ha b hb => ?_⟩
    · exact List.pairwise_of_forall_mem_list fun a ha b hb => by
        rw [htimes a ha, htimes b hb]
        exact Int.le_refl now.ticks
    · rw [htimes b hb]
      exact hlast _ (h.within key a ha)

end World

theorem Run.walked {svc : Services σ} {allowed : Fault → Prop} {s : Session (σ × List Moment)}
    (h : Run svc allowed s) : ∀ m ∈ s.moments, m.world.Sound ∧ m.world.Walked := by
  refine (h.always (P := fun w => w.Sound ∧ w.Walked) ?_ ?_).2
  · exact fun n => ⟨World.sound_empty n, World.each_empty _ n⟩
  · exact fun u v hshift hu => ⟨hshift.sound hu.1, hshift.walked hu.1 hu.2⟩

namespace Played

variable {svc : Services σ} {ops : List Operation} {s : Session (σ × List Moment)}

/-- The lines of all histories are of the instants of the operations. -/
theorem timely (h : Played svc ops s)
    (hops : (ops.filterMap Operation.instant?).Pairwise fun later earlier => earlier ≤ later) :
    s.world.Timely (ops.filterMap Operation.instant?) := by
  induction h with
  | start firstId mailer => exact ⟨fun _ _ hs => absurd hs List.not_mem_nil, fun _ => .nil⟩
  | @step ops s op _ _ ih =>
    cases ht : op.instant? with
    | none =>
      rw [List.filterMap_cons_none ht] at hops ⊢
      cases op with
      | resume campaign =>
        have hmute : s.world.Mute ((Change.resume campaign).on s.world).2 := Change.resume_mute _
        obtain ⟨hwithin, hordered⟩ := ih hops
        refine ⟨fun key => ?_, fun key => ?_⟩
        · exact hmute.history key ▸ hwithin key
        · exact hmute.history key ▸ hordered key
      | _ => cases ht
    | some now =>
      rw [List.filterMap_cons_some ht] at hops ⊢
      obtain ⟨hlast, hbefore⟩ := List.pairwise_cons.1 hops
      have htells := op.next_tells svc now
        (fun t h => Option.some.inj (h.symm.trans ht)) s
      exact (ih hbefore).of_goes htells.stories hlast

/-- **Histories retrace the ways of cursors.** At every moment of a run the history of a cursor tells a
walk through its flow. It starts at the entry. After a mail that was sent or a delay that is over it
goes on at the end of the one edge out of the step, after an answer at the end of the one edge for this
answer, and after any other line at the same step. Only its last line may be one of a cursor that failed
or was canceled. The cursor is where the last line led, in the state that this line implies. And if no
operation is of an earlier instant than one before it, the times of the history ascend. -/
theorem histories_retrace (h : Played svc ops s) :
    (∀ m ∈ s.moments, ∀ key c, m.world.cursors.find? key = some c →
      ∃ g, m.world.flows.find? c.flowId = some g ∧ c.Retraces g) ∧
    ((ops.filterMap Operation.instant?).Pairwise (fun later earlier => earlier ≤ later) →
      ∀ m ∈ s.moments, ∀ key c, m.world.cursors.find? key = some c →
        c.history.Pairwise fun a b => a.time ≤ b.time) := by
  refine ⟨fun m hm key c hc => ?_, fun hops m hm key c hc => ?_⟩
  · obtain ⟨hsound, hwalked⟩ := h.run.walked m hm
    obtain ⟨g, node, hat, -⟩ := (hsound key c hc).placed
    exact ⟨g, hat.version, .of_walk (hwalked key c g hc hat.version)⟩
  · -- The history at a moment is the beginning of the one in the end.
    obtain ⟨n, hrecorded⟩ := h.run.recorded
    have hcourse := (hrecorded.between m hm).2
    obtain ⟨d, hd, -⟩ := hcourse.stored hc
    have hordered := (h.timely hops).ordered key
    unfold World.history at hordered
    rw [hd] at hordered
    exact hordered.sublist (hcourse.history hc hd).sublist

/-- The lead whose campaign was canceled while the reminder was out, two days after it had come to the
condition: the history ends with the cancellation, at the reminder. -/
theorem histories_retrace_cutShort :
    Played .halting Operation.reminding .cutShort ∧
    ∃ c, Session.cutShort.world.cursors.find? ⟨.ofNat 0, "ada"⟩ = some c ∧
      c.history = [⟨"intro", "email", "sent", .epoch⟩,
        ⟨"replied", "condition", "condition_entered", .epoch⟩,
        ⟨"replied", "condition", "no", .secondDay⟩,
        ⟨"reminder", "cursor", "canceled: campaign canceled", .secondDay⟩] ∧
      (∃ g, Session.cutShort.world.flows.find? c.flowId = some g ∧ c.Retraces g) ∧
      c.history.Pairwise fun a b => a.time ≤ b.time := by
  have hhistory : (Session.cutShort.world.cursors.find? ⟨.ofNat 0, "ada"⟩).map Cursor.history =
      some [⟨"intro", "email", "sent", .epoch⟩,
        ⟨"replied", "condition", "condition_entered", .epoch⟩,
        ⟨"replied", "condition", "no", .secondDay⟩,
        ⟨"reminder", "cursor", "canceled: campaign canceled", .secondDay⟩] := by decide +kernel
  obtain ⟨c, hc, hlines⟩ := Option.map_eq_some_iff.1 hhistory
  have hops : (Operation.reminding.filterMap Operation.instant?).Pairwise
      fun later earlier => earlier ≤ later := by decide +kernel
  obtain ⟨hwalks, htimes⟩ := histories_retrace cutShort
  have hm : ⟨none, Session.cutShort.world⟩ ∈ Session.cutShort.moments := List.mem_cons_self
  exact ⟨cutShort, c, hc, hlines, hwalks _ hm _ c hc, htimes hops _ hm _ c hc⟩

end Played

end MailCampaign
