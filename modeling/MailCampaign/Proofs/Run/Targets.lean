import MailCampaign.Proofs.Engine.Beside
import MailCampaign.Proofs.Engine.Feed
import MailCampaign.Proofs.Run.Batch

/-!
# The targets of events

An event is about a lead in a campaign. If it stops the lead, the cursors of the lead in all campaigns end.
Otherwise it is counted on the cursors of the lead in that campaign, and sent to those that wait at
conditions, each of which may then take any number of steps. Nothing else changes, in whatever world an
engine has come to, and also if a time turns out to be out of range on the way.
-/

namespace MailCampaign

variable {σ : Type}

/-- **An event touches exactly its targets.** Take any world that engines come to, an event whose key was
not let in before, and a mailer that lets nothing happen while it is at work. An event that stops its lead
ends every cursor of the lead in every campaign; its report tells how many ran, the total of each campaign
grows by those of its own, and nothing is handed to the mailer. Any other event changes at most cursors
of its lead in its campaign that run, of these nothing but the counters unless they waited at a condition,
and the totals of its campaign. Both leave the cursors of other leads, the profiles, the flows and the
statuses as they are. -/
theorem World.Reachable.event_targets {svc : Services σ} {s : Session σ} {e : Engagement}
    (h : s.world.Reachable) (hq : svc.mailer.Quiet)
    (hfresh : s.world.seen.table.find? e.key = none) (now : Instant) :
    (e.haltsLead = true → ∃ v, (Engine.ingest svc e now).on s =
        (.ok { key := e.key, canceled := s.world.cursors.all.countP fun c =>
          c.leadId == e.leadId && !c.state.terminal }, { s with world := v }) ∧
      s.world.LeadHalted e v) ∧
    (e.haltsLead = false → s.world.Touched e ((Engine.ingest svc e now).on s).2.world) ∧
    ∀ key : CursorKey, key.leadId ≠ e.leadId →
      ((Engine.ingest svc e now).on s).2.world.cursors.find? key = s.world.cursors.find? key := by
  have hindexed := h.inOrder.indexed
  have hhalted := Engine.ingest_halted (e := e) hindexed hfresh
  have htouched : e.haltsLead = false →
      s.world.Touched e ((Engine.ingest svc e now).on s).2.world :=
    Engine.ingest_touched hq hindexed hfresh
  refine ⟨fun hkind => hhalted hkind svc now, htouched, fun key hkey => ?_⟩
  cases hkind : e.haltsLead with
  | true =>
    obtain ⟨v, hon, hv⟩ := hhalted hkind svc now
    rw [hon]
    exact hv.others key hkey
  | false => exact (htouched hkind).others hkey

/-- Two leads wait for a reply to the first mail. One of them unsubscribes, or replies. -/
theorem World.Reachable.event_targets_pair :
    let s : Session Nat := ⟨Session.pair.world, 0⟩
    let leaving := Engine.unsubscription "ada" (.ofNat 7) "leave" .secondDay
    let ada : CursorKey := ⟨.ofNat 0, "ada"⟩
    let ben : CursorKey := ⟨.ofNat 0, "ben"⟩
    (∃ v, (Engine.ingest .plain leaving .secondDay).on s =
        (.ok { key := "leave", canceled := 1 }, { s with world := v }) ∧
      v.cursors.find? ben = s.world.cursors.find? ben) ∧
    s.world.Touched (.ofAda .replied) ((Engine.ingest .plain (.ofAda .replied) .epoch).on s).2.world ∧
    ((Engine.ingest .plain (.ofAda .replied) .epoch).on s).2.world.cursors.find? ada ≠
      s.world.cursors.find? ada := by
  have hrun : Run .plain (fun _ => True) .pair :=
    (run_enrolled fun _ => True).succeed (.enroll (.ofNat 7) .ben .epoch) trivial
      (by decide +kernel)
  let s : Session Nat := ⟨Session.pair.world, 0⟩
  have hleave : s.world.seen.table.find? "leave" = none := by decide +kernel
  have hreplied : s.world.seen.table.find? "replied" = none := by decide +kernel
  have hquiet : Services.plain.mailer.Quiet := quiet_logMailer
  have hleaving := World.Reachable.event_targets (s := s)
    (e := Engine.unsubscription "ada" (.ofNat 7) "leave" .secondDay) hrun.reachable hquiet hleave
    .secondDay
  have hreplying := World.Reachable.event_targets (s := s) (e := .ofAda .replied) hrun.reachable
    hquiet hreplied .epoch
  refine ⟨?_, hreplying.2.1 rfl, by decide +kernel⟩
  obtain ⟨v, hon, hv⟩ := hleaving.1 rfl
  have hran : (s.world.cursors.all.countP fun c => c.leadId == "ada" && !c.state.terminal) = 1 := by
    decide +kernel
  refine ⟨v, ?_, hv.others _ (by decide)⟩
  rw [hon]
  exact congrArg (fun n => (Except.ok (IngestReport.mk "leave" false 0 0 n), _)) hran

end MailCampaign
