import MailCampaign.Proofs.Run.Traffic
import MailCampaign.Proofs.Run.Undisturbed

/-!
# A halt is safe

1. A cursor only comes to a mail in a campaign that is active. A pause or a cancellation that succeeds
   ends every cursor of its campaign, and a cursor that ended stays as it is along every course. So none
   of them comes to a mail at any later moment, also when the campaign is opened again
   (`Halted.not_mailing`).
2. When the mailer is called right away, nothing comes in between. While a template is rendered first,
   the cursor may be canceled, and nobody looks at it again before the call: then, and only then, a mail
   goes out for a cursor that was canceled (`Traffic.Overtaken`, `mailed_after_halt`).
3. Nothing halts a campaign without ending its cursors (`World.Heeds`), so a cursor that was not
   canceled meanwhile is still in an active campaign (`Traffic.Watched`).
4. No step of a course takes a campaign out of being canceled, and in a canceled campaign everything
   that would start something is refused (`closed_of_canceled`). A snapshot, though, is loaded over
   whatever there is.
-/

namespace MailCampaign

variable {σ : Type}

namespace World

/-- A pause of a campaign has just succeeded. -/
def JustPaused (w : World) (campaign : Uuid) : Prop :=
  ∃ u now n, (Change.pause campaign now).on u = (.ok n, w)

/-- A cancellation of a campaign has just succeeded. -/
def JustCanceled (w : World) (campaign : Uuid) : Prop :=
  ∃ u now n, (Change.cancelCampaign campaign now).on u = (.ok n, w)

/-- A campaign that is canceled, so that activating, enrolling, pausing and resuming are refused and
change nothing. -/
structure Closed (w : World) (campaign : Uuid) : Prop where
  status : w.status campaign = .canceled
  activate : ∀ document now, ∃ x, (Change.activate campaign document now).on w = (.error x, w)
  enroll : ∀ {τ : Type} (svc : Services τ) lead now mailer, ∃ x,
    (Engine.enroll svc campaign lead now).on ⟨w, mailer⟩ = (.error x, ⟨w, mailer⟩)
  pause : ∀ now, ∃ x, (Change.pause campaign now).on w = (.error x, w)
  resume : ∃ x, (Change.resume campaign).on w = (.error x, w)

variable {policy : RetryPolicy} {scope : Scope} {w v : World} {campaign : Uuid}

theorem JustPaused.halted (policy : RetryPolicy) (h : w.JustPaused campaign) :
    w.Halted campaign := by
  obtain ⟨u, now, n, hon⟩ := h
  rcases Change.pause_on policy .idle campaign now u with ⟨x, herr⟩ | ⟨n', v, hok, -, hhalt⟩
  · rw [hon] at herr
    cases herr
  · rw [hon] at hok
    rw [(Prod.mk.inj hok).2]
    exact hhalt

theorem JustCanceled.halted (policy : RetryPolicy) (h : w.JustCanceled campaign) :
    w.Halted campaign ∧ w.status campaign = .canceled := by
  obtain ⟨u, now, n, hon⟩ := h
  rcases Change.cancelCampaign_on policy .idle campaign now u with
    ⟨x, herr⟩ | ⟨n', v, hok, -, hhalt⟩
  · rw [hon] at herr
    cases herr
  · rw [hon] at hok
    rw [(Prod.mk.inj hok).2]
    exact hhalt

/-- No cursor of a halted campaign may send its mail ever again. -/
theorem Halted.not_mailing (h : w.Halted campaign) (hv : w.Course policy scope v)
    {key : CursorKey} {c : Cursor} (hc : w.cursors.find? key = some c)
    (hcampaign : c.campaignId = campaign) : ¬ v.Mailing key := by
  rintro ⟨d, g, node, hd, -, hrun, -⟩
  have hend := h key c hc hcampaign
  rw [hv.terminal hc hend] at hd
  rw [Option.some.inj hd, hrun] at hend
  cases hend

/-- A canceled campaign takes no new leads. -/
theorem addLead_canceled (h : w.status campaign = .canceled) (lead : Lead) (now : Instant) :
    (Engine.addLead campaign lead now).on w = (.error (.halted (.enrollment campaign)), w) := by
  unfold Engine.addLead
  rw [Change.on_bind_ok (Change.on_get w), h]
  rfl

theorem closed_of_canceled (h : w.status campaign = .canceled) : w.Closed campaign where
  status := h
  activate := fun document now => ⟨_, Change.activate_canceled h document now⟩
  enroll := by
    intro τ svc lead now mailer
    have hlift : (liftM (Engine.addLead campaign lead now) : Engine τ CursorKey).on ⟨w, mailer⟩ =
        (.error (.halted (.enrollment campaign)), ⟨w, mailer⟩) := by
      rw [Engine.on_lift, addLead_canceled h]
    exact ⟨_, Engine.on_bind_error hlift⟩
  pause := fun now => ⟨_, Change.pause_canceled h now⟩
  resume := ⟨_, Change.resume_canceled h⟩

/-! ## Halts are heeded -/

/-- What the later of two worlds halts and the earlier does not is a campaign in which no cursor runs. -/
def Heeds (w v : World) : Prop :=
  ∀ campaign, (v.status campaign).halts = true →
    (w.status campaign).halts = true ∨ v.Halted campaign

theorem Calm.heeds (h : w.Calm v) : w.Heeds v := fun campaign hst => .inl (h.status campaign hst)

theorem heeds_of_campaigns (h : v.campaigns = w.campaigns) : w.Heeds v := by
  intro campaign hst
  rw [status, h] at hst
  exact .inl hst

/-- A campaign gets a status as its cursors end. -/
theorem heeds_cancelRunning (policy : RetryPolicy) (w : World) (campaign : Uuid)
    (status : CampaignStatus) (reason : String) (now : Instant) :
    w.Heeds ((Change.cancelRunning campaign reason now).on (w.setStatus campaign status)).2 := by
  obtain ⟨v, hv, -, hcalm, hhalted⟩ :=
    Change.cancelRunning_calm policy (w.setStatus campaign status) campaign reason now
  rw [hv]
  intro other hst
  have hbefore := hcalm.status other hst
  rw [status_setStatus] at hbefore
  split at hbefore
  · next hsame => exact .inr (hsame ▸ hhalted)
  · exact .inl hbefore

end World

/-- An errand halts no campaign without ending its cursors. -/
theorem Errand.heeds (policy : RetryPolicy) (e : Errand) (w : World) : w.Heeds (e.done w) := by
  cases e with
  | activate campaign document now => exact (Change.activate_calm w).heeds
  | pause campaign now =>
    show w.Heeds ((Change.pause campaign now).on w).2
    rcases Change.pause_world campaign now w with h | h <;> rw [h]
    · exact World.heeds_of_campaigns rfl
    · exact World.heeds_cancelRunning policy w campaign .paused _ now
  | cancel campaign now =>
    show w.Heeds ((Change.cancelCampaign campaign now).on w).2
    rcases Change.cancelCampaign_world campaign now w with h | h <;> rw [h]
    · exact World.heeds_of_campaigns rfl
    · exact World.heeds_cancelRunning policy w campaign .canceled _ now
  | resume campaign => exact (Change.resume_calm w).heeds
  | prune ttlHours now => exact (Change.prune_calm w).heeds
  | halt e now => exact (Change.ingestHalting_calm policy w).heeds
  | admission campaign lead now => exact (Change.addLead_calm w).heeds
  | receive e now => exact (Change.receive_calm w).heeds
  | count e only now => exact (World.calm_count policy w e only now).heeds
  | settle key => exact (Change.settle_calm w).heeds

namespace Change

variable {key : CursorKey} {trigger : Trigger} {now : Instant} {w v : World} {h : Handover}

theorem opening_heeds (policy : RetryPolicy) (w : World) :
    w.Heeds ((opening key trigger now).on w).2 := by
  have hdeeds : w.Deeds False False ((opening key trigger now).on w).2 := opening_deeds w
  exact (hdeeds.calm policy).heeds

/-- A cursor comes to a mail in an active campaign. -/
theorem opening_mailing (hon : (opening key trigger now).on w = (.ok (.sends h), v)) :
    v.Mailing key := by
  obtain ⟨rfl, hdue, hst⟩ := opening_sends_unhalted hon
  exact ⟨h.cursor, h.graph, h.node, hdue.stored, Engine.active_of_not_halts hst,
    hdue.sendable.running, hdue.here, hdue.mails⟩

end Change

/-! ## Traffic -/

namespace Traffic

/-- A cursor comes to a mail, and its slot is taken. -/
def Begins (t t' : Traffic) (p : Parcel) : Prop := t.Free p.key ∧ p ∈ t'.out

/-- The template of a mail is being rendered. -/
def Rendering (t : Traffic) (p : Parcel) : Prop := p ∈ t.out ∧ p.stage = .rendering

/-- The cursor of a mail was canceled while the template of the mail was being rendered. -/
structure Overtaken (t : Traffic) (p : Parcel) : Prop where
  rendered : ∃ q, t.Rendering q ∧ p = q.sent
  template : p.handover.mail.template ≠ none
  canceled : ∃ c, t.world.cursors.find? p.key = some c ∧ c.state = .canceled

/-- Halts are safe from here on. -/
structure HaltSafe (retry : RetryPolicy) (t : Traffic) : Prop where
  /-- A cursor comes to a mail when its campaign is active and it runs and is at a mail. -/
  begun : ∀ call t' p, t.Move retry call t' → t.Begins t' p → t'.world.Mailing p.key
  /-- So it is when the mailer is called, unless the cursor was canceled during the rendering. -/
  called : ∀ p t', t.Move retry (some p) t' → t.world.Mailing p.key ∨ t.Overtaken p
  /-- As a pause or a cancellation succeeds, all cursors of the campaign have ended. -/
  halted : ∀ campaign, t.world.JustPaused campaign ∨ t.world.JustCanceled campaign →
    t.world.Halted campaign
  /-- None of them ever comes to a mail again, and the mailer is called for none of them again but
  for mails that are being rendered now. -/
  silent : ∀ campaign, t.world.JustPaused campaign ∨ t.world.JustCanceled campaign →
    ∀ key c, t.world.cursors.find? key = some c → c.campaignId = campaign →
      ∀ t' call t'', t.Goes retry t' → t'.Move retry call t'' →
        (∀ p, t'.Begins t'' p → p.key ≠ key) ∧
          ∀ p, call = some p → p.key = key → ∃ q, t.Rendering q ∧ p = q.sent
  /-- A cancellation that succeeds leaves the campaign canceled. -/
  canceled : ∀ campaign, t.world.JustCanceled campaign → t.world.status campaign = .canceled
  /-- A canceled campaign is closed for ever. -/
  closed : ∀ campaign, t.world.status campaign = .canceled →
    ∀ t', t.Goes retry t' → t'.world.Closed campaign

variable {retry : RetryPolicy} {t t' : Traffic} {call : Option Parcel} {p : Parcel}

theorem Move.heeds (ht : t.Orderly retry) (h : t.Move retry call t') : t.world.Heeds t'.world := by
  cases h with
  | errand e => exact e.heeds retry t.world
  | @ran key trigger now r w _ hon | @handed key trigger now h w _ hon
    | @asked key trigger now h w _ hon =>
    have hheeds : t.world.Heeds ((Change.opening key trigger now).on t.world).2 :=
      Change.opening_heeds retry t.world
    rwa [hon] at hheeds
  | rendered | taken => exact World.heeds_of_campaigns rfl
  | @answered p answer hp =>
    -- The closing changes its cursor and what is counted, but no campaign.
    obtain ⟨u, hdue, hcourse⟩ := ht p hp
    obtain ⟨d, hd, hsame⟩ := hcourse.stored hdue.stored
    have hconfined : t.world.Confined p.handover.cursor.key p.handover.cursor.campaignId
        ((Change.settleMail retry p.handover.graph p.handover.cursor p.handover.node p.now
          answer).on t.world).2 := Change.settleMail_confined t.world
    obtain ⟨hbeside, -⟩ := hconfined d (hdue.key ▸ hd) hsame.campaignId
    refine World.heeds_of_campaigns ?_
    show ((Change.closing retry p.handover p.now answer).on t.world).2.campaigns = _
    unfold Change.closing
    rw [Change.hushed_snd]
    exact hbeside.campaigns

/-- The mailer is called as a cursor comes to a mail, or as a template was rendered. -/
theorem Move.call_cases (h : t.Move retry (some p) t') :
    t.Begins t' p ∨ ∃ q, t.Rendering q ∧ p = q.sent := by
  cases h with
  | handed hfree => exact .inl ⟨hfree, List.mem_cons_self⟩
  | @rendered q hq hstage => exact .inr ⟨q, ⟨hq, hstage⟩, rfl⟩

/-- A cursor comes to a mail when it may send it. -/
theorem Move.begins_mailing (h : t.Move retry call t') (hp : t.Begins t' p) :
    t'.world.Mailing p.key := by
  obtain ⟨hfree, hmem⟩ := hp
  rcases h.origin hmem with ⟨-, -, trigger, hon⟩ | ⟨q, hq, hpq⟩
  · exact Change.opening_mailing hon
  · exact absurd (Parcel.key_of_origin hpq) (hfree q hq)

/-! ### Renderings -/

/-- Only stored templates are rendered, and the cursor of a mail that is under way ended, or its campaign
is not halted. -/
def Watched (t : Traffic) : Prop :=
  ∀ p ∈ t.out, (p.stage = .rendering → p.handover.mail.template ≠ none) ∧
    ∀ c, t.world.cursors.find? p.key = some c →
      c.state.terminal = true ∨ (t.world.status c.campaignId).halts = false

theorem Watched.move (hw : t.Watched) (ht : t.Orderly retry) (h : t.Move retry call t') :
    t'.Watched := by
  obtain ⟨scope, hcourse, -⟩ := h.course ht
  intro p hp
  rcases h.origin hp with ⟨-, htemplate, trigger, hon⟩ | ⟨q, hq, hpq⟩
  · obtain ⟨hworld, hdue, hst⟩ := Change.opening_sends_unhalted hon
    refine ⟨htemplate, fun c hc => .inr ?_⟩
    rw [hworld] at hc ⊢
    rwa [← Option.some.inj (hdue.stored.symm.trans hc)]
  · have hkey := Parcel.key_of_origin hpq
    refine ⟨fun hstage => ?_, fun c' hc' => ?_⟩
    · rcases hpq with rfl | rfl
      · exact (hw p hq).1 hstage
      · cases hstage
    · obtain ⟨c, hc⟩ := Option.ne_none_iff_exists'.1 (ht.stored hq)
      obtain ⟨d, hd, hsame⟩ := hcourse.stored hc
      obtain rfl : d = c' := Option.some.inj ((hkey ▸ hd).symm.trans hc')
      rcases (hw q hq).2 c hc with hend | hst
      · left
        rwa [Option.some.inj (hd.symm.trans (hcourse.terminal hc hend))]
      · -- What came to a halt just now has no running cursor.
        rw [← hsame.campaignId] at hst
        cases hst' : (t'.world.status d.campaignId).halts with
        | false => exact .inr rfl
        | true =>
          rcases h.heeds ht d.campaignId hst' with hbefore | hhalted
          · rw [hst] at hbefore
            cases hbefore
          · exact .inl (hhalted p.key d hc' rfl)

theorem Watched.goes (hw : t.Watched) (ht : t.Orderly retry) (h : t.Goes retry t') : t'.Watched := by
  induction h with
  | refl => exact hw
  | tail h hmove ih =>
    obtain ⟨_, hmove⟩ := hmove
    exact ih.move (ht.goes h) hmove

/-- The mailer is called for a cursor that may send its mail, unless the cursor was canceled while the
template was rendered. -/
theorem Move.called (hw : t.Watched) (ht : t.Orderly retry) (h : t.Move retry (some p) t') :
    t.world.Mailing p.key ∨ t.Overtaken p := by
  cases h with
  | handed _ hon => exact .inl ((Change.opening_sends hon).1 ▸ Change.opening_mailing hon)
  | @rendered q hq hstage =>
    obtain ⟨u, hdue, hcourse⟩ := ht q hq
    obtain ⟨d, hd, hcanceled | heq⟩ :=
      hcourse.canceled_or_counted (Scope.not_turns_except q.key) hdue.stored
    · exact .inr ⟨⟨q, ⟨hq, hstage⟩, rfl⟩, (hw q hq).1 hstage, d, hd, hcanceled⟩
    · have hrun : d.state.terminal = false := by rw [heq]; exact hdue.sendable.running
      have hhere := hdue.here.mono hcourse.grows
      have hat : d.At t.world.flows q.handover.graph q.handover.node := by
        rw [heq]
        exact ⟨hhere.version, hhere.step⟩
      refine .inl ⟨d, _, _, hd, ?_, hrun, hat, hdue.mails⟩
      rcases (hw q hq).2 d hd with hend | hst
      · rw [hrun] at hend
        cases hend
      · exact Engine.active_of_not_halts hst

/-! ### Silence -/

variable {campaign : Uuid} {key : CursorKey} {c : Cursor}

/-- A cursor of a halted campaign never comes to a mail. -/
theorem Goes.not_begins (ht : t.Orderly retry) (hhalt : t.world.Halted campaign)
    (hc : t.world.cursors.find? key = some c) (hcampaign : c.campaignId = campaign)
    (h : t.Goes retry t') {t'' : Traffic} (hmove : t'.Move retry call t'')
    (hp : t'.Begins t'' p) : p.key ≠ key := by
  rintro rfl
  have hlater : t.Goes retry t'' := h.tail ⟨call, hmove⟩
  exact hhalt.not_mailing (hlater.course ht) hc hcampaign (hmove.begins_mailing hp)

/-- Its mails that are under way are those that were under way as it was halted. -/
theorem Goes.left (ht : t.Orderly retry) (hhalt : t.world.Halted campaign)
    (hc : t.world.cursors.find? key = some c) (hcampaign : c.campaignId = campaign)
    (h : t.Goes retry t') : ∀ p ∈ t'.out, p.key = key → ∃ q ∈ t.out, p = q ∨ p = q.sent := by
  induction h with
  | refl => exact fun p hp _ => ⟨p, hp, .inl rfl⟩
  | @tail t₁ t₂ h hmove ih =>
    obtain ⟨_, hmove⟩ := hmove
    intro p hp hkey
    rcases hmove.origin hp with ⟨hfree, -⟩ | ⟨q, hq, hpq⟩
    · exact absurd hkey (Goes.not_begins ht hhalt hc hcampaign h hmove ⟨hfree, hp⟩)
    · have hsame := Parcel.key_of_origin hpq
      obtain ⟨r, hr, hqr⟩ := ih q hq (hsame.trans hkey)
      refine ⟨r, hr, ?_⟩
      rcases hpq with rfl | rfl
      · exact hqr
      · rcases hqr with rfl | rfl
        · exact .inr rfl
        · exact .inr rfl

/-- **Halts are safe in traffic** that started with nothing under way. -/
theorem Goes.haltSafe {w : World} (h : Goes retry ⟨w, []⟩ t) : t.HaltSafe retry := by
  have ht : t.Orderly retry := (orderly_idle w).goes h
  have hw : t.Watched := Watched.goes (fun _ hp => absurd hp List.not_mem_nil) (orderly_idle w) h
  have hhalt : ∀ {campaign}, t.world.JustPaused campaign ∨ t.world.JustCanceled campaign →
      t.world.Halted campaign := fun hjust =>
    hjust.elim (·.halted retry) fun hc => (hc.halted retry).1
  refine ⟨fun _ _ _ hmove => hmove.begins_mailing, fun _ _ hmove => hmove.called hw ht,
    fun _ => hhalt, fun campaign hjust key c hc hcampaign t' call t'' hgoes hmove =>
      ⟨fun p => hgoes.not_begins ht (hhalt hjust) hc hcampaign hmove, ?_⟩,
    fun _ hc => (hc.halted retry).2,
    fun _ hcanceled _ hgoes =>
      World.closed_of_canceled ((hgoes.course ht).canceled_status hcanceled)⟩
  rintro p rfl hkey
  rcases hmove.call_cases with hbegins | ⟨q, ⟨hq, hstage⟩, rfl⟩
  · exact absurd hkey (hgoes.not_begins ht (hhalt hjust) hc hcampaign hmove hbegins)
  · obtain ⟨r, hr, rfl | rfl⟩ := hgoes.left ht (hhalt hjust) hc hcampaign q hq hkey
    · exact ⟨q, ⟨hr, hstage⟩, rfl⟩
    · cases hstage

end Traffic

/-- A change whose result is not looked at has one when it succeeds. -/
theorem Change.ok_of_discard {α : Type} {c : Change α} {w : World}
    (h : ((discard c).on w).1 = .ok ⟨⟩) : ∃ a, c.on w = (.ok a, ((discard c).on w).2) := by
  rw [on_discard] at h ⊢
  rcases hr : c.on w with ⟨x | a, v⟩
  · rw [hr] at h
    cases h
  · exact ⟨a, rfl⟩

namespace Operation

variable {svc : Services σ} {campaign : Uuid} {now : Instant} {s : Session (σ × List Moment)}

theorem justPaused (hok : (((pause campaign now).perform svc.recording).on s).1 = .ok ⟨⟩) :
    ((pause campaign now).next svc s).world.JustPaused campaign :=
  ⟨s.world, now, Change.ok_of_discard hok⟩

theorem justCanceled (hok : (((cancel campaign now).perform svc.recording).on s).1 = .ok ⟨⟩) :
    ((cancel campaign now).next svc s).world.JustCanceled campaign :=
  ⟨s.world, now, Change.ok_of_discard hok⟩

end Operation

/-! ## Runs -/

/-- Halts are safe in a session, in which one thing is done after another. -/
structure Session.HaltSafe (s : Session (σ × List Moment)) : Prop where
  /-- A mail is handed over when its campaign is active and its cursor runs and is at a mail. -/
  called : ∀ m ∈ s.moments, ∀ key now, m.scene = some (.call key now) → m.world.Mailing key
  /-- Once a pause or a cancellation of a campaign has succeeded, all its cursors have ended, and no mail
  is ever handed over for any of them again. -/
  silent : ∀ later m earlier campaign, s.moments = later ++ m :: earlier →
    m.world.JustPaused campaign ∨ m.world.JustCanceled campaign →
      m.world.Halted campaign ∧
        ∀ m' ∈ later, ∀ key now, m'.scene = some (.call key now) →
          ∀ c, m.world.cursors.find? key = some c → c.campaignId ≠ campaign
  canceled : ∀ m ∈ s.moments, ∀ campaign, m.world.JustCanceled campaign →
    m.world.status campaign = .canceled
  closed : ∀ later m earlier campaign, s.moments = later ++ m :: earlier →
    m.world.status campaign = .canceled → ∀ m' ∈ later ++ [m], m'.world.Closed campaign

theorem Run.haltSafe {svc : Services σ} {allowed : Fault → Prop} {s : Session (σ × List Moment)}
    (h : Run svc allowed s) : s.HaltSafe := by
  obtain ⟨n, hrec⟩ := h.recorded
  refine ⟨hrec.calls, fun later m earlier campaign hsplit hjust => ?_,
    fun _ _ _ hc => (hc.halted svc.retry).2,
    fun later m earlier campaign hsplit hcanceled m' hm' => World.closed_of_canceled ?_⟩
  · have hhalt : m.world.Halted campaign :=
      hjust.elim (·.halted svc.retry) fun hc => (hc.halted svc.retry).1
    refine ⟨hhalt, fun m' hm' key now hcall c hc hcampaign => ?_⟩
    have hmem : m' ∈ s.moments := hsplit ▸ List.mem_append_left _ hm'
    exact hhalt.not_mailing (h.later_of_split hsplit hm') hc hcampaign
      (hrec.calls m' hmem key now hcall)
  · rcases List.mem_append.1 hm' with hlater | hself
    · exact (h.later_of_split hsplit hlater).canceled_status hcanceled
    · rw [List.mem_singleton.1 hself]
      exact hcanceled

/-- **A halt is safe.** Cursors only come to mails in campaigns that are active, and the mailer is only
called for them there, unless the cursor was canceled while the template of that very mail was being
rendered. Once a pause or a cancellation of a campaign has succeeded, all its cursors have ended, and
none of them comes to a mail ever again; the mailer is called for none of them any more but for mails
that were being rendered as the campaign was halted. Once a campaign is canceled, it is closed for ever.
This holds of all traffic, from any world in which nothing is under way. In a run one thing is done after
another, and no mail is handed over for a cursor that was canceled. -/
theorem halt_safe (svc : Services σ) (allowed : Fault → Prop) :
    (∀ s, Run svc allowed s → s.HaltSafe) ∧
      ∀ w t, Traffic.Goes svc.retry ⟨w, []⟩ t → t.HaltSafe svc.retry :=
  ⟨fun _ h => h.haltSafe, fun _ _ h => Traffic.Goes.haltSafe h⟩

/-! ## A mail that is overtaken -/

/-- A day of rest, and a mail with a stored template. -/
def Document.templated : Document where
  nodes := [⟨"rest", .delay ⟨1, .days⟩⟩, ⟨"intro", .email ⟨some "welcome", "", ""⟩⟩]
  edges := [{ id := "a", source := "rest", target := "intro" }]

/-- A cursor that comes to no mail has its step run. -/
theorem Traffic.ran_of_handover? {retry : RetryPolicy} {t : Traffic} {key : CursorKey}
    {trigger : Trigger} {now : Instant} (hfree : t.Free key)
    (h : (((Change.opening key trigger now).on t.world).1.toOption.bind Opened.handover?).isSome =
      false) :
    t.Step retry { t with world := ((Change.opening key trigger now).on t.world).2 } := by
  rcases hon : (Change.opening key trigger now).on t.world with ⟨x | o | handover, v⟩
  · exact ⟨none, .ran (r := .error x) hfree hon⟩
  · exact ⟨none, .ran (r := .ok o) hfree hon⟩
  · rw [hon] at h
    cases h

namespace World

/-- Two leads wait for a day. -/
def resting : World :=
  [Errand.activate (.ofNat 7) .templated .epoch, .admission (.ofNat 7) .ada .epoch,
    .admission (.ofNat 7) .ben .epoch].foldl Errand.done (.empty 0)

/-- What the openings of two cursors come to, one after the other. -/
def openedBoth (w : World) (trigger : Trigger) (now : Instant) : World :=
  ((Change.opening ⟨.ofNat 0, "ben"⟩ trigger now).on
    ((Change.opening ⟨.ofNat 0, "ada"⟩ trigger now).on w).2).2

/-- The two leads have come to the mail. -/
def rested : World := (resting.openedBoth .enter .epoch).openedBoth .timer .secondDay

/-- The campaign is paused then. -/
def overtaken : World := (Errand.pause (.ofNat 7) .secondDay).done rested

end World

namespace Traffic

variable (retry : RetryPolicy)

/-- In one tick the timers of both leads fire, and their templates are being rendered. -/
theorem goes_rested : ∃ ada ben : Parcel, ada.key = ⟨.ofNat 0, "ada"⟩ ∧ ben.key = ⟨.ofNat 0, "ben"⟩ ∧
    ada.stage = .rendering ∧ ben.stage = .rendering ∧
    (start 0).Goes retry ⟨World.rested, [ben, ada]⟩ := by
  have hidle : ∀ (w : World) (key : CursorKey), Traffic.Free ⟨w, []⟩ key := fun _ _ _ hp =>
    absurd hp List.not_mem_nil
  have hran : ∀ (w : World) (key : CursorKey) (trigger : Trigger) (now : Instant),
      (((Change.opening key trigger now).on w).1.toOption.bind Opened.handover?).isSome = false →
      Goes retry ⟨w, []⟩ ⟨((Change.opening key trigger now).on w).2, []⟩ :=
    fun w key trigger now h => .single (ran_of_handover? (hidle w key) h)
  have hresting : (start 0).Goes retry ⟨World.resting, []⟩ :=
    ((Relation.ReflTransGen.single ⟨_, .errand (.activate (.ofNat 7) .templated .epoch) rfl⟩).tail
      ⟨_, .errand (.admission (.ofNat 7) .ada .epoch) trivial⟩).tail
        ⟨_, .errand (.admission (.ofNat 7) .ben .epoch) trivial⟩
  have hentered : Goes retry ⟨World.resting, []⟩ ⟨World.resting.openedBoth .enter .epoch, []⟩ :=
    (hran _ ⟨.ofNat 0, "ada"⟩ .enter .epoch (by decide +kernel)).trans
      (hran _ ⟨.ofNat 0, "ben"⟩ .enter .epoch (by decide +kernel))
  have hfired : Goes retry ⟨World.resting.openedBoth .enter .epoch, []⟩ ⟨World.rested, []⟩ :=
    (hran _ ⟨.ofNat 0, "ada"⟩ .timer .secondDay (by decide +kernel)).trans
      (hran _ ⟨.ofNat 0, "ben"⟩ .timer .secondDay (by decide +kernel))
  have htemplate : ∀ lead ∈ ["ada", "ben"], (((Change.opening ⟨.ofNat 0, lead⟩ .enter
      .secondDay).on World.rested).1.toOption.bind Opened.handover?).map
        (fun h => h.mail.template) = some (some "welcome") := by decide +kernel
  have hasked : ∀ lead ∈ ["ada", "ben"], ∃ h : Handover, h.mail.template ≠ none ∧
      (Change.opening ⟨.ofNat 0, lead⟩ .enter .secondDay).on World.rested =
        (.ok (.sends h), World.rested) := by
    intro lead hlead
    obtain ⟨h, hsends, hname⟩ := Option.map_eq_some_iff.1 (htemplate lead hlead)
    exact ⟨h, by rw [hname]; exact Option.some_ne_none _, Change.opening_of_handover? hsends⟩
  obtain ⟨ada, hada, honAda⟩ := hasked "ada" (by simp)
  obtain ⟨ben, hben, honBen⟩ := hasked "ben" (by simp)
  refine ⟨⟨_, ada, .secondDay, .rendering⟩, ⟨_, ben, .secondDay, .rendering⟩, rfl, rfl, rfl, rfl,
    (((hresting.trans hentered).trans hfired).tail ⟨_, .asked (hidle _ _) honAda hada⟩).tail
      ⟨_, .asked ?_ honBen hben⟩⟩
  intro p hp
  have hne : (⟨.ofNat 0, "ada"⟩ : CursorKey) ≠ ⟨.ofNat 0, "ben"⟩ := by decide
  rw [List.mem_singleton.1 hp]
  exact hne

/-- The mailer is called for the mail of one of them, the campaign is paused meanwhile, and the mailer is
called for the mail of the other. -/
theorem goes_overtaken : ∃ t p t', (start 0).Goes retry t ∧ t.world = World.overtaken ∧
    t.Move retry (some p) t' ∧ p.key = ⟨.ofNat 0, "ada"⟩ := by
  obtain ⟨ada, ben, hada, hben, hadaStage, hbenStage, hgoes⟩ := goes_rested retry
  have hcalled : Move retry ⟨World.rested, [ben, ada]⟩ (some ben.sent) _ :=
    .rendered List.mem_cons_self hbenStage
  have hpaused : Goes retry (start 0) ⟨World.overtaken, _⟩ :=
    (hgoes.tail ⟨_, hcalled⟩).tail ⟨_, .errand (.pause (.ofNat 7) .secondDay) trivial⟩
  have hne : ada.key ≠ ben.key := by
    rw [hada, hben]
    decide
  have hout : ada ∈ ben.sent :: [ben, ada].filter fun q => q.key ≠ ben.key :=
    List.mem_cons_of_mem _ (List.mem_filter.2 ⟨by simp, decide_eq_true hne⟩)
  exact ⟨_, _, _, hpaused, rfl, .rendered hout hadaStage, hada⟩

end Traffic

namespace World

theorem justPaused_overtaken : overtaken.JustPaused (.ofNat 7) := by
  obtain ⟨n, hn⟩ := Change.ok_of_discard (show ((discard (Change.pause (.ofNat 7)
    .secondDay)).on rested).1 = .ok ⟨⟩ by decide +kernel)
  rw [Change.on_discard] at hn
  exact ⟨rested, .secondDay, n, hn⟩

theorem overtaken_canceled : ∃ c, overtaken.cursors.find? ⟨.ofNat 0, "ada"⟩ = some c ∧
    c.campaignId = .ofNat 7 ∧ c.state = .canceled := by
  have hfields : (overtaken.cursors.find? ⟨.ofNat 0, "ada"⟩).map
      (fun c => (c.campaignId, c.state)) = some (.ofNat 7, .canceled) := by decide +kernel
  obtain ⟨c, hc, hboth⟩ := Option.map_eq_some_iff.1 hfields
  exact ⟨c, hc, (Prod.mk.inj hboth).1, (Prod.mk.inj hboth).2⟩

theorem overtaken_not_mailing : ¬ overtaken.Mailing ⟨.ofNat 0, "ada"⟩ := by
  rintro ⟨d, -, -, hd, -, hrun, -⟩
  obtain ⟨c, hc, -, hcanceled⟩ := overtaken_canceled
  rw [Option.some.inj (hd.symm.trans hc), hcanceled] at hrun
  cases hrun

end World

/-- In one tick the mailer is called for a lead after the campaign was paused during the call for another
lead. And a snapshot from before a cancellation opens the campaign again. -/
theorem mailed_after_halt :
    (¬ ∀ t p t', (Traffic.start 0).Goes Services.plain.retry t →
      t.Move Services.plain.retry (some p) t' → t.world.Mailing p.key) ∧
    (¬ ∀ t, (Traffic.start 0).Goes Services.plain.retry t → t.world.JustPaused (.ofNat 7) →
      ∀ t' p t'', t.Goes Services.plain.retry t' → t'.Move Services.plain.retry (some p) t'' →
        ∀ c, t.world.cursors.find? p.key = some c → c.campaignId ≠ .ofNat 7) ∧
    ¬ ∀ s, Run Services.plain (fun _ => True) s → s.world.status (.ofNat 7) = .canceled →
      ∀ snap, (s.world.restore snap).1.status (.ofNat 7) = .canceled := by
  obtain ⟨t, p, t', hgoes, hworld, hcall, hkey⟩ := Traffic.goes_overtaken Services.plain.retry
  refine ⟨fun hmailing => ?_, fun hsilent => ?_, fun hcanceled => ?_⟩
  · have hp := hmailing t p t' hgoes hcall
    rw [hworld, hkey] at hp
    exact World.overtaken_not_mailing hp
  · obtain ⟨c, hc, hcampaign, -⟩ := World.overtaken_canceled
    have hjust : t.world.JustPaused (.ofNat 7) := hworld ▸ World.justPaused_overtaken
    exact hsilent t hgoes hjust t p t' .refl hcall c (by rw [hworld, hkey, hc]) hcampaign
  · have hstatus := hcanceled .stopped (run_stopped _) (by decide +kernel)
      (Session.enrolled.world.snapshot .epoch)
    exact absurd hstatus (by decide +kernel)

/-- In a run the campaign of a lead is paused, opened again and canceled after a mail. In traffic it is
paused while a template is rendered. -/
theorem halt_safe_stopped :
    ((∃ m ∈ Session.stopped.moments, ∃ key now,
        m.scene = some (.call key now) ∧ m.world.Mailing key) ∧
      Session.paused.world.Halted (.ofNat 7) ∧ Session.stopped.world.Closed (.ofNat 7)) ∧
    ∃ t p t', (Traffic.start 0).Goes Services.plain.retry t ∧ t.world.JustPaused (.ofNat 7) ∧
      t.world.Halted (.ofNat 7) ∧ t.Move Services.plain.retry (some p) t' ∧ t.Overtaken p := by
  constructor
  · have h := (halt_safe .plain fun _ => True).1 .stopped (run_stopped _)
    have hjust : Session.paused.world.JustPaused (.ofNat 7) :=
      Operation.justPaused (by decide +kernel)
    have hstop : Session.stopped.world.JustCanceled (.ofNat 7) :=
      Operation.justCanceled (by decide +kernel)
    have hlast : (⟨none, Session.stopped.world⟩ : Moment) ∈ Session.stopped.moments := by
      rw [Session.moments_stopped]
      exact List.mem_cons_self
    refine ⟨?_, ?_, ?_⟩
    · have hcalled : Session.stopped.moments.any Moment.isCall = true := by decide +kernel
      obtain ⟨m, hm, hcall⟩ := List.any_eq_true.1 hcalled
      unfold Moment.isCall at hcall
      split at hcall
      · next key now he => exact ⟨m, hm, key, now, he, h.called m hm key now he⟩
      · cases hcall
    · exact (h.silent [⟨none, Session.stopped.world⟩, ⟨none, Session.resumed.world⟩] _ _ (.ofNat 7)
        Session.moments_stopped (.inl hjust)).1
    · exact h.closed [] _ _ (.ofNat 7) Session.moments_stopped (h.canceled _ hlast (.ofNat 7) hstop)
        _ (List.mem_singleton_self _)
  · obtain ⟨t, p, t', hgoes, hworld, hcall, hkey⟩ := Traffic.goes_overtaken Services.plain.retry
    have hjust : t.world.JustPaused (.ofNat 7) := hworld ▸ World.justPaused_overtaken
    have h := (halt_safe .plain fun _ => True).2 (.empty 0) t hgoes
    refine ⟨t, p, t', hgoes, hjust, h.halted _ (.inl hjust), hcall, ?_⟩
    rcases h.called p t' hcall with hmailing | hovertaken
    · rw [hworld, hkey] at hmailing
      exact absurd hmailing World.overtaken_not_mailing
    · exact hovertaken

end MailCampaign
