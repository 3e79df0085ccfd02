import MailCampaign.Proofs.Run.Basic
import MailCampaign.Proofs.World.Replay

/-!
# Cursors stay well formed

Every small step of a sound world leads to a sound one and is written down in the journal, so both
hold along every run.
-/

namespace MailCampaign

variable {σ : Type} {svc : Services σ} {allowed : Fault → Prop} {s : Session (σ × List Moment)}

namespace Run

/-- Every world of a run is sound and chronicled. -/
theorem chronicled (h : Run svc allowed s) :
    (s.world.Sound ∧ ∀ n, s.world.Chronicled (World.empty n)) ∧
      ∀ m ∈ s.moments, m.world.Sound ∧ ∀ n, m.world.Chronicled (World.empty n) := by
  refine h.always (P := fun w => w.Sound ∧ ∀ n, w.Chronicled (World.empty n)) ?_ ?_
  · exact fun m => ⟨World.sound_empty m, fun n =>
      .start ⟨fun _ => rfl, fun _ => rfl⟩ (World.sound_empty m) rfl⟩
  · rintro u v hshift ⟨hsound, hchron⟩
    exact ⟨hshift.sound hsound, fun n => hshift.chronicled hsound (hchron n)⟩

/-- **Cursors stay well formed.** At every moment of a run, between operations as well as while the
mailer is at work, every cursor is well formed. So is every cursor that any part of the journal from
its start rebuilds in an empty world. -/
theorem cursors_wellFormed (h : Run svc allowed s) :
    (∀ m ∈ s.moments, m.world.Sound) ∧
      ∀ n l, l <+: journaled s.world.trace → ((World.empty n).replayAll l).Sound :=
  ⟨fun m hm => (h.chronicled.2 m hm).1, fun n l hl => (h.chronicled.1.2 n).sound l hl⟩

/-- A cursor that waits at a condition, and the world before its mail was counted, rebuilt. -/
theorem cursors_wellFormed_enrolled :
    (∃ c, Session.enrolled.world.cursors.find? ⟨.ofNat 0, "ada"⟩ = some c ∧
      c.state = .waitingCondition ∧ c.WellFormed Session.enrolled.world.flows) ∧
    ((World.empty 0).replayAll ((journaled Session.enrolled.world.trace).take 3)).Sound := by
  have h := cursors_wellFormed (run_enrolled fun _ => True)
  refine ⟨?_, h.2 0 _ (List.take_prefix 3 _)⟩
  have hstate : (Session.enrolled.world.cursors.find? ⟨.ofNat 0, "ada"⟩).map Cursor.state =
      some .waitingCondition := by decide +kernel
  obtain ⟨c, hc, hs⟩ := Option.map_eq_some_iff.1 hstate
  exact ⟨c, hc, hs, h.1 ⟨none, Session.enrolled.world⟩ List.mem_cons_self _ c hc⟩

end Run

end MailCampaign
