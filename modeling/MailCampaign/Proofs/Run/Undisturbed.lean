import MailCampaign.Proofs.Engine.Deed
import MailCampaign.Proofs.Engine.Posted
import MailCampaign.Proofs.Run.Lineage
import MailCampaign.Proofs.World.Touched

/-!
# Halted campaigns are at rest

An engine is undisturbed if nothing happens while its mailers are at work and if it only starts again from
snapshots of whole worlds. Then no cursor of a halted campaign runs, not even one that waits.

1. A pause or a cancellation of a campaign ends its cursors and halts no other campaign.
2. Everything else halts no campaign and adds no cursor to a halted one (`World.Calm`), and a cursor
   that ended stays as it is.
-/

namespace MailCampaign

namespace World

/-- No cursor of a halted campaign runs. -/
def Heeded (w : World) : Prop := ∀ campaign, (w.status campaign).halts = true → w.Halted campaign

/-- Worlds of which the later halts only campaigns that the earlier halts, and has only cursors in those
that were there before. -/
structure Calm (w v : World) : Prop where
  status : ∀ campaign, (v.status campaign).halts = true → (w.status campaign).halts = true
  known : ∀ key d, v.cursors.find? key = some d → (v.status d.campaignId).halts = true →
    ∃ c, w.cursors.find? key = some c ∧ c.campaignId = d.campaignId

instance : IsPreorder World Calm where
  refl := fun _ => ⟨fun _ h => h, fun _ d hd _ => ⟨d, hd, rfl⟩⟩
  trans := by
    intro w v u h h'
    refine ⟨fun campaign hst => h.status campaign (h'.status campaign hst), fun key d hd hst => ?_⟩
    obtain ⟨c, hc, hcampaign⟩ := h'.known key d hd hst
    obtain ⟨b, hb, hcampaign'⟩ := h.known key c hc (hcampaign ▸ h'.status _ hst)
    exact ⟨b, hb, hcampaign'.trans hcampaign⟩

variable {policy : RetryPolicy} {scope : Scope} {w v : World} {snap : Snapshot}

theorem Calm.of_eq (hcampaigns : v.campaigns = w.campaigns) (hcursors : v.cursors = w.cursors) :
    w.Calm v := by
  refine ⟨fun campaign hst => ?_, fun key d hd _ => ⟨d, hcursors ▸ hd, rfl⟩⟩
  rwa [World.status, hcampaigns] at hst

/-- Counting an event adds no cursors. -/
theorem calm_count (policy : RetryPolicy) (w : World) (e : Engagement) (only : Option CursorKey)
    (received : Instant) : w.Calm (w.count e only received) := by
  have hcampaigns := (count_keeps w e only received).2.2.1
  have hcourse : w.Course policy .idle (w.count e only received) := count_course w e only received
  refine ⟨fun campaign hst => ?_, fun key d hd _ => ?_⟩
  · rwa [World.status, hcampaigns] at hst
  · obtain ⟨c, hc, -⟩ := hcourse.found id hd
    obtain ⟨d', hd', hsame⟩ := hcourse.stored hc
    obtain rfl : d' = d := Option.some.inj (hd'.symm.trans hd)
    exact ⟨c, hc, hsame.campaignId.symm⟩

/-- A deed that is not done from outside. -/
theorem Deed.calm (policy : RetryPolicy) {mails : Prop} (h : w.Deed mails False v) :
    w.Calm v := by
  cases h with
  | @moved c d hc hsame =>
    refine ⟨fun _ hst => hst, fun key b hb _ => ?_⟩
    rw [find?_storeCursor] at hb
    split at hb
    · next hkey =>
      obtain rfl := Option.some.inj hb
      exact ⟨c, by rw [hkey, hsame.key, hc], hsame.campaignId.symm⟩
    · exact ⟨b, hb, rfl⟩
  | ended campaign state =>
    unfold countOutcome
    dsimp only
    split <;> exact .of_eq rfl rfl
  | told => exact .of_eq rfl rfl
  | mailed c now => exact calm_count policy w _ _ now
  | status _ _ h => exact h.elim
  | unsubscribed _ h => exact h.elim

theorem heeded_empty (n : Nat) : (empty n).Heeded := by
  intro campaign _ key c hc
  cases (CursorStore.find?_empty key).symm.trans hc

/-- Halts that are heeded are still heeded after a calm course. -/
theorem Heeded.calm (h : w.Heeded) (hcourse : w.Course policy scope v) (hv : w.Calm v) :
    v.Heeded := by
  intro campaign hst key d hd hcampaign
  subst hcampaign
  obtain ⟨c, hc, hcampaign⟩ := hv.known key d hd hst
  have ht : c.state.terminal = true := h _ (hv.status _ hst) key c hc hcampaign
  obtain rfl : d = c := Option.some.inj (hd.symm.trans (hcourse.terminal hc ht))
  exact ht

/-- So they are after a campaign got a status and its cursors ended. -/
theorem Heeded.halted {campaign : Uuid} {status : CampaignStatus} (h : w.Heeded)
    (hcourse : (w.setStatus campaign status).Course policy scope v)
    (hv : (w.setStatus campaign status).Calm v) (hhalted : v.Halted campaign) : v.Heeded := by
  intro other hst key d hd hother
  by_cases hsame : other = campaign
  · exact hhalted key d hd (hother.trans hsame)
  · subst hother
    obtain ⟨c, hc, hcampaign⟩ := hv.known key d hd hst
    have hbefore := hv.status _ hst
    rw [status_setStatus, if_neg hsame] at hbefore
    have ht : c.state.terminal = true := h _ hbefore key c hc hcampaign
    obtain rfl : d = c := Option.some.inj (hd.symm.trans (hcourse.terminal hc ht))
    exact ht

/-- A snapshot restores statuses and cursors alike. -/
theorem Heeded.restore (h : w.Heeded) (hw : w.Sound) (hsnap : snap.Lists w) (n : Nat) :
    ((World.empty n).restore snap).1.Heeded := by
  intro campaign hst key c hc hcampaign
  have hstatus : ((World.empty n).restore snap).1.status campaign = w.status campaign :=
    congrArg (Option.getD · CampaignStatus.active) (Table.find?_insertAll_perm hsnap.campaigns campaign)
  exact h campaign (hstatus ▸ hst) key c ((hw.mirrors_restore hsnap n).cursors key ▸ hc) hcampaign

theorem Deeds.calm (policy : RetryPolicy) {mails : Prop} (h : w.Deeds mails False v) : w.Calm v :=
  h.keeps fun _ _ h => h.calm policy

end World

/-! ## Operations -/

namespace Change

open World

variable {w : World} {campaign : Uuid} {now : Instant} {e : Engagement}

theorem cancel_calm (policy : RetryPolicy) {key : CursorKey} {reason : String} :
    (cancel key reason now).Keeps Calm := by
  intro w
  have hdeeds : w.Deeds False False ((cancel key reason now).on w).2 := cancel_deeds w
  exact hdeeds.calm policy

/-- The cursors of a campaign end, and nothing is halted. -/
theorem cancelRunning_calm (policy : RetryPolicy) (w : World) (campaign : Uuid) (reason : String)
    (now : Instant) : ∃ v, ((cancelRunning campaign reason now).on w).2 = v ∧
      w.Course policy .idle v ∧ w.Calm v ∧ v.Halted campaign := by
  obtain ⟨n, v, hon, hcourse, hhalted⟩ := cancelRunning_on policy .idle campaign reason now w
  have hcalm : (cancelRunning campaign reason now).Keeps Calm :=
    .get fun w => Keeps.cancelAll (fun _ => cancel_calm policy) _ w
  have hv := hcalm w
  rw [hon] at hv
  exact ⟨v, by rw [hon], hcourse, hv, hhalted⟩

theorem cancelRunning_heeded (policy : RetryPolicy) (hw : w.Heeded) (status : CampaignStatus)
    (reason : String) : ((cancelRunning campaign reason now).on (w.setStatus campaign status)).2.Heeded := by
  obtain ⟨v, hv, hcourse, hcalm, hhalted⟩ :=
    cancelRunning_calm policy (w.setStatus campaign status) campaign reason now
  rw [hv]
  exact hw.halted hcourse hcalm hhalted

/-- A pause does nothing, or the campaign gets its status and its cursors end. -/
theorem pause_world (campaign : Uuid) (now : Instant) (w : World) :
    ((pause campaign now).on w).2 = w ∨ ((pause campaign now).on w).2 =
      ((cancelRunning campaign "campaign paused" now).on (w.setStatus campaign .paused)).2 := by
  unfold pause
  have hreq := on_requireCampaign campaign w
  split at hreq
  · rw [on_bind_ok hreq, on_bind_ok (on_get w)]
    split
    · exact .inl rfl
    · exact .inr rfl
  · rw [on_bind_error hreq]
    exact .inl rfl

/-- So does a cancellation. -/
theorem cancelCampaign_world (campaign : Uuid) (now : Instant) (w : World) :
    ((cancelCampaign campaign now).on w).2 = w ∨ ((cancelCampaign campaign now).on w).2 =
      ((cancelRunning campaign "campaign canceled" now).on (w.setStatus campaign .canceled)).2 := by
  unfold cancelCampaign
  have hreq := on_requireCampaign campaign w
  split at hreq
  · rw [on_bind_ok hreq]
    exact .inr rfl
  · rw [on_bind_error hreq]
    exact .inl rfl

theorem pause_heeded (policy : RetryPolicy) (hw : w.Heeded) :
    ((pause campaign now).on w).2.Heeded := by
  rcases pause_world campaign now w with h | h <;> rw [h]
  · exact hw
  · exact cancelRunning_heeded policy hw .paused _

theorem cancelCampaign_heeded (policy : RetryPolicy) (hw : w.Heeded) :
    ((cancelCampaign campaign now).on w).2.Heeded := by
  rcases cancelCampaign_world campaign now w with h | h <;> rw [h]
  · exact hw
  · exact cancelRunning_heeded policy hw .canceled _

theorem resume_calm : (resume campaign).Keeps Calm := by
  intro w
  unfold resume
  have hreq := on_requireCampaign campaign w
  split at hreq
  · rw [on_bind_ok hreq, on_bind_ok (on_get w)]
    split
    · exact refl_of Calm w
    · refine ⟨fun other hst => ?_, fun _ d hd _ => ⟨d, hd, rfl⟩⟩
      have hst' : ((w.setStatus campaign .active).status other).halts = true := hst
      rw [status_setStatus] at hst'
      split at hst'
      · cases hst'
      · exact hst'
    · exact refl_of Calm w
  · rw [on_bind_error hreq]
    exact refl_of Calm w

theorem activate_calm {document : Document} : (activate campaign document now).Keeps Calm := by
  refine .get fun w => ?_
  by_cases hs : w.status campaign = .canceled
  · rw [if_pos hs]
    exact refl_of Calm w
  · rw [if_neg hs]
    cases ha : w.flows.activate (Uuid.ofNat w.nextId) campaign document now with
    | error x => exact refl_of Calm w
    | ok stored =>
      let v : World := { w with flows := stored.1, nextId := w.nextId + 1 }
      refine ⟨fun other hst => ?_, fun _ d hd _ => ⟨d, hd, rfl⟩⟩
      have hst' : (((v.journal (.flow stored.2.definition)).setStatus campaign
        (w.status campaign)).status other).halts = true := hst
      rw [status_setStatus] at hst'
      split at hst'
      · next h => exact h ▸ hst'
      · exact hst'

/-- A lead only enters a campaign that is not halted. -/
theorem addLead_calm {lead : Lead} : (Engine.addLead campaign lead now).Keeps Calm := by
  refine .get fun w => ?_
  by_cases hs : (w.status campaign).halts = true
  · rw [if_pos hs]
    exact refl_of Calm w
  rw [if_neg hs]
  cases hg : w.flows.active? campaign with
  | none => exact refl_of Calm w
  | some g =>
    rw [on_bind_ok (on_need_some _ g w)]
    let entered := Engine.newCursor (Uuid.ofNat w.nextId) g campaign lead.id now
    dsimp only
    cases hi : w.cursors.insert entered with
    | error x => exact refl_of Calm w
    | ok cursors =>
      obtain ⟨-, rfl⟩ := CursorStore.insert_eq_ok_iff.1 hi
      refine ⟨fun _ hst => hst, fun key d hd hst => ?_⟩
      have hd' : (w.cursors.addNew entered).find? key = some d := hd
      rw [CursorStore.find?_addNew] at hd'
      split at hd'
      · obtain rfl := Option.some.inj hd'
        exact absurd hst hs
      · exact ⟨d, hd', rfl⟩

theorem receive_calm : (receive e now).Keeps Calm := by
  refine .get fun w => ?_
  split <;> exact .of_eq rfl rfl

theorem settle_calm {key : String} : (settle key).Keeps Calm := by
  intro w
  obtain ⟨seen, trace, hv, -⟩ := settle_eq key w
  rw [hv]
  exact .of_eq rfl rfl

theorem prune_calm {ttlHours : UInt64} : (prune ttlHours now).Keeps Calm :=
  Keeps.bind (.need _ _) fun _ => Keeps.bind (.need _ _) fun _ => .get fun _ => .of_eq rfl rfl

theorem ingestHalting_calm (policy : RetryPolicy) : (ingestHalting e now).Keeps Calm :=
  .ingestHalting receive_calm (.apply fun w => calm_count policy w e none now)
    (fun _ => cancel_calm policy) settle_calm

end Change

namespace Engine

open World Session

variable {σ : Type} {svc : Services σ}

theorem dispatch_calm (hq : svc.mailer.Quiet) (now : Instant) (trigger : Trigger)
    (key : CursorKey) : (dispatch svc key trigger now).Keeps (Worlds Calm) := by
  intro s
  have hdeeds : s.Deeds svc True False ((dispatch svc key trigger now).on s).2 :=
    dispatch_deeds trivial (.inl hq) trigger now key s
  exact hdeeds.keeps (fun _ _ h => h.calm svc.retry) fun _ _ => .of_eq rfl rfl

end Engine

/-- After every operation the halts of campaigns are still heeded. -/
theorem Operation.perform_heeded {σ : Type} {svc : Services σ} (op : Operation) {s : Session σ}
    (hq : svc.mailer.Quiet) (hfresh : op.Fresh s.world) (hs : s.world.Heeded) :
    ((op.perform svc).on s).2.world.Heeded := by
  have htrail : s.Trail svc .all ((op.perform svc).on s).2 := op.perform_trail hfresh
  have hcalm : (op.perform svc).Keeps (Session.Worlds World.Calm) →
      ((op.perform svc).on s).2.world.Heeded := fun h => hs.calm htrail.course (h s)
  have hdispatch := Engine.dispatch_calm hq
  cases op with
  | activate => exact hcalm (Engine.worlds_lift Change.activate_calm.discard)
  | enroll campaign lead now =>
    exact hcalm (Engine.Keeps.enroll (Engine.worlds_lift Change.addLead_calm) (hdispatch now .enter)
      fun key => Engine.worlds_lift (.cursor key)).discard
  | ingest e now =>
    have hcount : (Change.apply (·.count e none now)).Keeps World.Calm :=
      .apply fun w => World.calm_count svc.retry w e none now
    exact hcalm (Engine.Keeps.ingest (Engine.worlds_lift (Change.ingestHalting_calm svc.retry))
      (Engine.worlds_lift Change.receive_calm) (Engine.worlds_lift hcount)
      (Engine.worlds_lift Change.settle_calm) (hdispatch now (.event e))).discard
  | dispatch key trigger now => exact hcalm (hdispatch now trigger key).discard
  | tick batchSize now => exact hcalm (Engine.Keeps.tick (hdispatch now .timer) batchSize).discard
  | pause campaign now =>
    unfold perform
    rw [Engine.on_lift, Change.on_discard]
    exact Change.pause_heeded svc.retry hs
  | cancel campaign now =>
    unfold perform
    rw [Engine.on_lift, Change.on_discard]
    exact Change.cancelCampaign_heeded svc.retry hs
  | resume campaign => exact hcalm (Engine.worlds_lift Change.resume_calm)
  | prune ttlHours now => exact hcalm (Engine.worlds_lift Change.prune_calm.discard)
  | recover now => exact hcalm (Engine.Keeps.recover (hdispatch now .enter)).discard

namespace World

/-- The worlds that engines come to that nothing disturbs. -/
inductive Undisturbed : World → Prop
  | empty (n : Nat) : Undisturbed (empty n)
  | perform {w : World} {σ : Type} (svc : Services σ) (mailer : σ) (op : Operation) :
      svc.mailer.Quiet → Undisturbed w → op.Fresh w →
      Undisturbed ((op.perform svc).on ⟨w, mailer⟩).2.world
  /-- An engine starts from a snapshot that lists the world of another one. -/
  | restored {w : World} {snap : Snapshot} (n : Nat) : Undisturbed w → snap.Lists w →
      Undisturbed ((World.empty n).restore snap).1

variable {w : World}

theorem Undisturbed.lineage (h : w.Undisturbed) : ∃ base, World.Lineage base w := by
  induction h with
  | empty n => exact ⟨_, .empty n⟩
  | perform svc mailer op _ _ hfresh ih =>
    obtain ⟨base, hbase⟩ := ih
    exact ⟨base, .perform svc mailer op hbase hfresh⟩
  | restored n _ hsnap ih =>
    obtain ⟨base, hbase⟩ := ih
    exact ⟨_, .restored n hbase hsnap⟩

/-- Nothing runs in the halted campaigns of an engine that nothing disturbs. -/
theorem Undisturbed.heeded (h : w.Undisturbed) : w.Heeded := by
  induction h with
  | empty n => exact heeded_empty n
  | perform svc mailer op hq _ hfresh ih => exact op.perform_heeded hq hfresh ih
  | restored n h hsnap ih =>
    obtain ⟨base, hbase⟩ := h.lineage
    exact ih.restore hbase.known.sound hsnap n

end World

/-- So in runs with a mailer that lets nothing happen while it is at work. -/
theorem Run.undisturbed {σ : Type} {svc : Services σ} {allowed : Fault → Prop}
    {s : Session (σ × List Moment)} (h : Run svc allowed s) (hq : svc.mailer.Quiet) :
    s.world.Undisturbed := by
  have hquiet : svc.recording.mailer.Quiet := fun state lead mail => hq state.1 lead mail
  induction h with
  | start firstId mailer => exact .empty firstId
  | @step s op _ hfresh _ ih => exact .perform svc.recording s.mailer op hquiet ih hfresh

end MailCampaign
