import MailCampaign.Proofs.Engine.Posted
import MailCampaign.Proofs.World.Balance
import MailCampaign.Proofs.World.Furnished

/-!
# Runs that are cut off

A crash may stop an engine after any entry of its journal. What is there of the journal then consists
of whole postings and, at its end, of the first entries of one more.
-/

namespace MailCampaign

variable {σ : Type} {svc : Services σ} {allowed : Fault → Prop} {s : Session (σ × List Moment)}

namespace Run

/-- **What cursors refer to after a crash.** Whatever part of its journal a run leaves from its start,
in the world rebuilt from it the version and the campaign of every cursor are known. So is the profile
of its lead, unless the part ends with the entry of that very cursor, the lead has just been enrolled,
and the profile would have been the next entry. -/
theorem cut_off_furnished (h : Run svc allowed s) (n : Nat) {l : List Entry}
    (hl : l <+: journaled s.world.trace) {key : CursorKey} {c : Cursor}
    (hc : ((World.empty n).replayAll l).cursors.find? key = some c) :
    (∃ g, ((World.empty n).replayAll l).flows.find? c.flowId = some g) ∧
    (∃ status, ((World.empty n).replayAll l).campaigns.find? c.campaignId = some status) ∧
    ((∃ lead, ((World.empty n).replayAll l).leads.find? c.leadId = some lead) ∨
      c.state = .pending ∧ l.getLast? = some (.cursor c) ∧
        ∃ lead, lead.id = c.leadId ∧ l ++ [.lead lead] <+: journaled s.world.trace) := by
  obtain ⟨m, hm⟩ := h.postings
  obtain ⟨u, done, rest, hu, hbegun, hrest, ⟨before, rfl⟩, hslots⟩ := hm.rebuilds_cut n hl
  obtain ⟨hplaced, hlead⟩ := (hu.furnished (World.furnished_empty m)).cut hbegun hslots hc
  refine ⟨?_, ?_, ?_⟩
  · simpa [World.at?, Option.isSome_iff_exists] using hplaced.version
  · simpa [World.at?, Option.isSome_iff_exists] using hplaced.campaign
  · rcases hlead with hlead | ⟨hs, rfl, lead, hid, hnext⟩
    · exact .inl (by simpa [World.at?, Option.isSome_iff_exists] using hlead)
    · refine .inr ⟨hs, by simp, lead, hid, List.IsPrefix.trans ?_ hrest⟩
      exact (List.prefix_append_right_inj _).2 hnext

/-- The entries of a short run up to that of a cursor. -/
def enrolledCut : List Entry := (journaled Session.enrolled.world.trace).take 3

theorem cut_off_furnished_enrolled :
    ∃ c, ((World.empty 0).replayAll enrolledCut).cursors.find? ⟨.ofNat 0, "ada"⟩ = some c ∧
      (∃ g, ((World.empty 0).replayAll enrolledCut).flows.find? c.flowId = some g) ∧
      (∃ status, ((World.empty 0).replayAll enrolledCut).campaigns.find? c.campaignId =
        some status) ∧
      ((∃ lead, ((World.empty 0).replayAll enrolledCut).leads.find? c.leadId = some lead) ∨
        c.state = .pending ∧ enrolledCut.getLast? = some (.cursor c) ∧
          ∃ lead, lead.id = c.leadId ∧
            enrolledCut ++ [.lead lead] <+: journaled Session.enrolled.world.trace) := by
  have hknown : (((World.empty 0).replayAll enrolledCut).cursors.find?
      ⟨.ofNat 0, "ada"⟩).isSome = true := by decide +kernel
  obtain ⟨c, hc⟩ := Option.isSome_iff_exists.1 hknown
  exact ⟨c, hc, cut_off_furnished (run_enrolled fun _ => True) 0 (List.take_prefix 3 _) hc⟩

/-- Behind the entry of a new cursor the profile of its lead is missing, and going on from there ends
the cursor as failed. -/
theorem unknown_lead_after_crash :
    Run .plain (fun _ => False) .enrolled ∧
    enrolledCut <+: journaled Session.enrolled.world.trace ∧
    (∃ c, ((World.empty 0).replayAll enrolledCut).cursors.find? ⟨.ofNat 0, "ada"⟩ = some c ∧
      ((World.empty 0).replayAll enrolledCut).leads.find? c.leadId = none) ∧
    ∃ d, ((Engine.recover .plain .epoch).on
        ⟨(World.empty 0).replayAll enrolledCut, 0⟩).2.world.cursors.find? ⟨.ofNat 0, "ada"⟩ = some d ∧
      d.state = .failed ∧ d.failure = some "unknown lead ada" := by
  refine ⟨run_enrolled _, List.take_prefix 3 _, ?_, ?_⟩
  · have hlead : (((World.empty 0).replayAll enrolledCut).cursors.find? ⟨.ofNat 0, "ada"⟩).map
        (fun c => (((World.empty 0).replayAll enrolledCut).leads.find? c.leadId).isNone) =
        some true := by decide +kernel
    obtain ⟨c, hc, hnone⟩ := Option.map_eq_some_iff.1 hlead
    exact ⟨c, hc, Option.isNone_iff_eq_none.1 hnone⟩
  · have hfailed : (((Engine.recover .plain .epoch).on
        ⟨(World.empty 0).replayAll enrolledCut, 0⟩).2.world.cursors.find? ⟨.ofNat 0, "ada"⟩).map
        (fun d => (d.state, d.failure)) = some (.failed, some "unknown lead ada") := by
      decide +kernel
    obtain ⟨d, hd, h⟩ := Option.map_eq_some_iff.1 hfailed
    exact ⟨d, hd, congrArg Prod.fst h, congrArg Prod.snd h⟩

/-! ## Totals -/

/-- **What totals count after a crash.** Whatever part of its journal a run leaves from its start, in
the world rebuilt from it the totals of every campaign count its cursors, all of them and those in each
terminal state. There are two exceptions, in which the totals of one campaign are one behind and those
of all others count their cursors: the part ends with a cursor that ended, or with a new cursor and
perhaps the profile of its lead, and the totals would have come next. -/
theorem cut_off_counted (h : Run svc allowed s) (n : Nat) {l : List Entry}
    (hl : l <+: journaled s.world.trace) :
    ((World.empty n).replayAll l).Balanced ∨
    (∃ c totals, c.state.terminal = true ∧ l.getLast? = some (.cursor c) ∧
      l ++ [.stats c.campaignId totals none none] <+: journaled s.world.trace ∧
      ((World.empty n).replayAll l).Behind c.campaignId fun t => t.finish c.state) ∨
    ∃ before c lead totals, c.state = .pending ∧ lead.id = c.leadId ∧
      (l = before ++ [.cursor c] ∨ l = before ++ [.cursor c, .lead lead]) ∧
      before ++ [.cursor c, .lead lead, .stats c.campaignId totals none none] <+:
        journaled s.world.trace ∧
      ((World.empty n).replayAll l).Behind c.campaignId Totals.enroll := by
  obtain ⟨m, hm⟩ := h.postings
  obtain ⟨u, done, rest, hu, hbegun, hrest, ⟨before, rfl⟩, hslots⟩ := hm.rebuilds_cut n hl
  rcases (hu.balanced (World.balanced_empty m)).cut hbegun hslots with
    hbalanced | ⟨c, totals, ht, rfl, rfl, hbehind⟩ |
    ⟨c, lead, totals, hs, hid, hdone, hentries, hbehind⟩
  · exact .inl hbalanced
  · exact .inr (.inl ⟨c, totals, ht, by simp, hrest, hbehind⟩)
  · refine .inr (.inr ⟨before, c, lead, totals, hs, hid, ?_, ?_, hbehind⟩)
    · exact hdone.imp (fun h => by rw [h]) (fun h => by rw [h])
    · rw [← hentries, ← List.append_assoc]
      exact hrest

/-- The entries of a short run up to the profile of a lead that enrolls. -/
def uncountedCut : List Entry := (journaled Session.enrolled.world.trace).take 4

theorem cut_off_counted_enrolled :
    ((World.empty 0).replayAll uncountedCut).Balanced ∨
    (∃ c totals, c.state.terminal = true ∧ uncountedCut.getLast? = some (.cursor c) ∧
      uncountedCut ++ [.stats c.campaignId totals none none] <+:
        journaled Session.enrolled.world.trace ∧
      ((World.empty 0).replayAll uncountedCut).Behind c.campaignId fun t => t.finish c.state) ∨
    ∃ before c lead totals, c.state = .pending ∧ lead.id = c.leadId ∧
      (uncountedCut = before ++ [.cursor c] ∨ uncountedCut = before ++ [.cursor c, .lead lead]) ∧
      before ++ [.cursor c, .lead lead, .stats c.campaignId totals none none] <+:
        journaled Session.enrolled.world.trace ∧
      ((World.empty 0).replayAll uncountedCut).Behind c.campaignId Totals.enroll :=
  cut_off_counted (run_enrolled fun _ => True) 0 (List.take_prefix 4 _)

/-- Behind the profile of a new lead the totals of its campaign lack the enrollment, and going on from
there does not make up for it. -/
theorem uncounted_after_crash :
    Run .plain (fun _ => False) .enrolled ∧
    uncountedCut <+: journaled Session.enrolled.world.trace ∧
    (((World.empty 0).replayAll uncountedCut).statistics.of (.ofNat 7)).enrolled = 0 ∧
    (((World.empty 0).replayAll uncountedCut).cursors.ofCampaign (.ofNat 7)).length = 1 ∧
    (((Engine.recover .plain .epoch).on
      ⟨(World.empty 0).replayAll uncountedCut, 0⟩).2.world.statistics.of (.ofNat 7)).enrolled = 0 ∧
    (((Engine.recover .plain .epoch).on
      ⟨(World.empty 0).replayAll uncountedCut, 0⟩).2.world.cursors.ofCampaign
        (.ofNat 7)).length = 1 :=
  ⟨run_enrolled _, List.take_prefix 4 _, by decide +kernel, by decide +kernel, by decide +kernel,
    by decide +kernel⟩

end Run

end MailCampaign
