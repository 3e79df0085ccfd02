import MailCampaign.Proofs.Engine.Told
import MailCampaign.Proofs.Run.Books

/-!
# The log of a run

The activities of a cursor agree with what happened to it, whenever an operation is over
(`Run.log_agrees`).

1. An operation has the stories of cursors go on, at its instant, and each call of the mailer has its
   mail (`Operation.perform_tells`). While a mail is out its cursor may be canceled; it is told of
   both the cancellation and the mail, if it is accepted, and of nothing else.
2. So the stories are faithful, and mails are told of as often as they were accepted
   (`Session.Logged`).
-/

namespace MailCampaign

variable {σ : Type}

namespace Session

/-- Stories go on at an instant, and there are more calls of the mailer. The mails that were accepted
are told of. -/
structure Tells (now : Instant) (s t : Session (σ × List Moment)) : Prop where
  stories : ∀ key, (s.world.story key).Goes now (t.world.story key)
  calls : ∃ calls : List Call,
    t.moments.filter Moment.isCall = calls.map Call.moment ++ s.moments.filter Moment.isCall ∧
    t.world.submissions = calls.map Call.mail ++ s.world.submissions ∧
    ∀ key, t.world.tally key "email_sent" =
      s.world.tally key "email_sent" + calls.countP (Call.acceptedFor key)

variable {now : Instant} {s t u : Session (σ × List Moment)}

theorem Tells.trans (h : s.Tells now t) (h' : t.Tells now u) : s.Tells now u where
  stories := fun key => (h.stories key).trans (h'.stories key)
  calls := by
    obtain ⟨calls, hmoments, hmails, hsent⟩ := h.calls
    obtain ⟨calls', hmoments', hmails', hsent'⟩ := h'.calls
    refine ⟨calls' ++ calls, ?_, ?_, fun key => ?_⟩
    · rw [hmoments', hmoments, List.map_append, List.append_assoc]
    · rw [hmails', hmails, List.map_append, List.append_assoc]
    · rw [hsent', hsent, List.countP_append]
      omega

/-- Without calls. -/
theorem Tells.of_world (hw : s.world.Tells now [] t.world)
    (hm : t.moments.filter Moment.isCall = s.moments.filter Moment.isCall) : s.Tells now t where
  stories := hw.stories
  calls := ⟨[], hm, hw.mails, hw.accepted⟩

instance : IsPreorder (Session (σ × List Moment)) (Tells now) where
  refl := fun s => .of_world (.refl s.world) rfl
  trans := fun _ _ _ => .trans

end Session

/-! ## Operations -/

namespace Engine

open Session

variable {svc : Services σ} {now : Instant} {key : CursorKey}

theorem tells_lift {α : Type} {c : Change α} (h : c.Keeps (World.Tells now [])) :
    (liftM c : Engine (σ × List Moment) α).Keeps (Session.Tells now) :=
  fun s => .of_world (h s.world) rfl

theorem render_tells (svc : Services σ) (mail : Mail) (lead : Lead) :
    (render svc.recording.renderer mail lead).Keeps (Session.Tells now) := by
  intro s
  obtain ⟨mailer, hon⟩ := render_recording svc mail lead s
  rw [hon]
  exact .of_world (.refl s.world) rfl

/-- A mail is handed over and the answer is settled. -/
theorem handOn_tells (svc : Services σ) (h : Handover) (t : Template) (hk : h.cursor.key = key) :
    (handOn svc.recording key now h t).Keeps (Session.Tells now) := by
  intro s
  let called := looked svc.recording.mailer (.call key now) s
  let answer := (svc.recording.mailer.send called.mailer h.lead t).1
  let handed := handedOver svc.recording.mailer h.lead t called
  let back := answer.interruptions.foldl (disturbed svc.recording.mailer h.lead now) handed
  have hon : (deliver svc.recording.mailer key h.lead t now).on s = (.ok answer.result, back) :=
    rfl
  obtain ⟨during, hmoments, hduring, -, -⟩ :=
    interruptions_recorded svc h.lead now answer.interruptions handed
  have hmeanwhile : handed.world.Tells now [] back.world :=
    disturbed_tells svc.recording.mailer h.lead now answer.interruptions handed
  have hclosing := Change.closing_tells svc.retry h now answer.result back.world
  have hwhole := hmeanwhile.trans hclosing
  rw [List.nil_append, hk] at hwhole
  unfold handOn
  rw [on_bind_ok hon, on_lift]
  refine ⟨hwhole.stories, [⟨⟨some (.call key now), s.world⟩, ⟨h.lead, t, answer.result⟩⟩], ?_,
    hwhole.mails, fun key' => ?_⟩
  · show back.moments.filter Moment.isCall = _
    rw [hmoments, List.filter_append, Moment.filter_isCall fun m hm => (hduring m hm).call?]
    rfl
  · refine (hwhole.accepted key').trans (congrArg _ ?_)
    show _ = List.countP _ [_]
    rw [List.countP_singleton]
    unfold Call.acceptedFor
    cases hresult : answer.result with
    | error fault => simp [Submission.messageId?, Except.toOption]
    | ok id => simp [Submission.messageId?, Except.toOption, Moment.call?, List.count_singleton]

theorem dispatchOnce_tells (svc : Services σ) (key : CursorKey) (trigger : Trigger) (now : Instant) :
    (dispatchOnce svc.recording key trigger now).Keeps (Session.Tells now) :=
  .dispatchOnce (tells_lift Change.opening_tells) (render_tells svc)
    (fun h e _ => tells_lift (Change.closing_tells svc.retry h now (.error e)))
    fun h t hk => handOn_tells svc h t hk

end Engine

namespace Operation

/-- The instant of an operation. -/
def instant? : Operation → Option Instant
  | activate _ _ now | enroll _ _ now | ingest _ now | dispatch _ _ now | tick _ now | pause _ now
  | cancel _ now | prune _ now | recover now => some now
  | resume _ => none

/-- An operation tells what it does. -/
theorem perform_tells {svc : Services σ} {now : Instant} (op : Operation)
    (hop : ∀ t, op.instant? = some t → t = now) :
    (op.perform svc.recording).Keeps (Session.Tells now) := by
  have hdispatch : ∀ trigger key,
      (Engine.dispatch svc.recording key trigger now).Keeps (Session.Tells now) :=
    fun trigger key => .dispatch (fun trigger => Engine.dispatchOnce_tells svc key trigger now) trigger
  cases op with
  | activate campaign document t =>
    obtain rfl := hop t rfl
    exact Engine.tells_lift Change.activate_mute.mute.discard
  | enroll campaign lead t =>
    obtain rfl := hop t rfl
    exact (Engine.Keeps.enroll (Engine.tells_lift Change.addLead_tells) (hdispatch .enter)
      fun key => Engine.tells_lift (.cursor key)).discard
  | ingest e t =>
    obtain rfl := hop t rfl
    exact (Engine.Keeps.ingest (Engine.tells_lift Change.ingestHalting_tells)
      (Engine.tells_lift Change.receive_mute.mute) (Engine.tells_lift Change.count_mute.mute)
      (Engine.tells_lift Change.settle_mute.mute) (hdispatch (.event e))).discard
  | dispatch key trigger t =>
    obtain rfl := hop t rfl
    exact (hdispatch trigger key).discard
  | tick batchSize t =>
    obtain rfl := hop t rfl
    exact (Engine.Keeps.tick (hdispatch .timer) batchSize).discard
  | pause campaign t =>
    obtain rfl := hop t rfl
    exact Engine.tells_lift Change.pause_tells.discard
  | cancel campaign t =>
    obtain rfl := hop t rfl
    exact Engine.tells_lift Change.cancelCampaign_tells.discard
  | resume campaign => exact Engine.tells_lift Change.resume_mute.mute
  | prune ttlHours t =>
    obtain rfl := hop t rfl
    exact Engine.tells_lift Change.prune_mute.mute.discard
  | recover t =>
    obtain rfl := hop t rfl
    exact (Engine.Keeps.recover (hdispatch .enter)).discard

/-- So does an operation with the moment after it. -/
theorem next_tells (svc : Services σ) (now : Instant) (op : Operation)
    (hop : ∀ t, op.instant? = some t → t = now) (s : Session (σ × List Moment)) :
    s.Tells now (op.next svc s) :=
  (op.perform_tells hop s).trans (.of_world (.refl _) rfl)

end Operation

/-! ## The log of a session -/

namespace Session

variable {now : Instant} {s t : Session (σ × List Moment)}

/-- All stories are faithful, each call has its mail, and the mails that were accepted are told of. -/
structure Logged (s : Session (σ × List Moment)) : Prop where
  faithful : ∀ key, (s.world.story key).Faithful
  paired : (s.moments.filter Moment.isCall).length = s.world.submissions.length
  sent : ∀ key, s.world.tally key "email_sent" = s.accepted key

theorem Logged.tells (h : s.Logged) (ht : s.Tells now t) : t.Logged := by
  obtain ⟨calls, hmoments, hmails, hsent⟩ := ht.calls
  have hcalls : t.calls = calls ++ s.calls := by
    unfold Session.calls
    rw [hmoments, hmails, List.zip_append (by rw [List.length_map, List.length_map]),
      List.map_append, List.zip_map', List.map_map]
    exact congrArg (· ++ _) (List.map_id calls)
  refine ⟨fun key => (ht.stories key).faithful (h.faithful key), ?_, fun key => ?_⟩
  · rw [hmoments, hmails, List.length_append, List.length_append, h.paired, List.length_map,
      List.length_map]
  · unfold accepted
    rw [hsent, h.sent, hcalls, List.countP_append, Nat.add_comm]
    rfl

/-- The calls are those of the moments, and the mails are those that went out. -/
theorem Logged.calls_eq (h : s.Logged) :
    s.calls.map Call.moment = s.moments.filter Moment.isCall ∧
      s.calls.map Call.mail = s.world.submissions := calls_eq_of_paired h.paired

theorem logged_start (firstId : Nat) (mailer : σ) : (start firstId mailer).Logged :=
  ⟨fun _ => ⟨rfl, rfl, rfl⟩, rfl, fun _ => rfl⟩

end Session

/-! ## The log agrees -/

/-- The activities of a cursor agree with what happened to it. -/
structure Session.LogAgrees (s : Session (σ × List Moment)) (key : CursorKey) (c : Cursor) : Prop where
  enrolled : s.world.tally key "lead_enrolled" = 1
  /-- The end of a cursor that ended is told of once, and no end else. -/
  ended : (s.world.told key).filterMap Activity.end? = if c.state.terminal then [c.state] else []
  sent : s.world.tally key "email_sent" = s.accepted key
  retried : s.world.tally key "email_send_failed" =
    c.history.countP fun s => s.outcome == "send_retry"
  delayed : s.world.tally key "delay_scheduled" =
    c.history.countP fun s => s.outcome == "delay_scheduled"
  resolved : s.world.tally key "condition_resolved" =
    c.history.countP fun s => s.outcome == "yes" || s.outcome == "no"
  /-- Retries, delays and answers are told of in order, with the step and the time of each. An answer
  is told of with its branch. -/
  lines : (s.world.told key).reverse.filterMap Activity.line? = c.history.filterMap Step.line?

theorem Session.Logged.agrees {s : Session (σ × List Moment)} (h : s.Logged)
    {key : CursorKey} {c : Cursor} (hc : s.world.cursors.find? key = some c) :
    s.LogAgrees key c := by
  have hfaithful := h.faithful key
  have hhistory : (s.world.story key).history = c.history := by
    show ((s.world.cursors.find? key).map Cursor.history).getD [] = _
    rw [hc]
    rfl
  have hstate : (s.world.story key).state = some c.state := by
    show (s.world.cursors.find? key).map Cursor.state = _
    rw [hc]
    rfl
  have hended := hfaithful.ended
  have hlines := hfaithful.lines
  rw [hstate, Option.filter_some] at hended
  rw [hhistory] at hlines
  refine ⟨?_, ?_, h.sent key, ?_, ?_, ?_, hlines⟩
  · exact hfaithful.enrolled.trans (by rw [hstate]; rfl)
  · refine hended.trans ?_
    split <;> rfl
  · rw [← hhistory]
    refine hfaithful.tally_eq (r := fun o => o == "send_retry") (fun o ho => ?_) fun m _ => ?_
    · rw [eq_of_beq ho]
      decide
    · cases m with
      | conditionResolved branch cause => cases branch <;> rfl
      | _ => rfl
  · rw [← hhistory]
    refine hfaithful.tally_eq (r := fun o => o == "delay_scheduled") (fun o ho => ?_) fun m _ => ?_
    · rw [eq_of_beq ho]
      decide
    · cases m with
      | conditionResolved branch cause => cases branch <;> rfl
      | _ => rfl
  · rw [← hhistory]
    refine hfaithful.tally_eq (r := fun o => o == "yes" || o == "no") (fun o ho => ?_) fun m hm => ?_
    · rcases (Bool.or_eq_true _ _).mp ho with ho | ho <;> rw [eq_of_beq ho] <;> decide
    · cases m with
      | conditionResolved branch cause =>
        -- No cursor leaves a condition without an answer.
        cases branch with
        | next => exact absurd (hm "next" rfl) (by decide)
        | _ => rfl
      | _ => rfl

namespace Run

variable {svc : Services σ} {allowed : Fault → Prop} {s : Session (σ × List Moment)}

theorem logged (h : Run svc allowed s) : s.Logged := by
  induction h with
  | start firstId mailer => exact Session.logged_start firstId mailer
  | step op _ _ _ ih =>
    exact ih.tells (op.next_tells svc (op.instant?.getD .epoch) (fun t ht => by rw [ht]; rfl) _)

/-- **The log agrees.** Whenever an operation of a run is over, each call of the mailer has its mail,
and the activities of a cursor are these: one for the enrollment; one of the kind of its state if the
cursor ended; one for each mail that was accepted; and one for each retry, each delay and each answer in
its history, in order. A transition that is refused tells nothing, and neither does a cancellation that
finds the cursor at an end. When a cursor may not leave its step after its mail was accepted, the mail
alone is told of. -/
theorem log_agrees (h : Run svc allowed s) :
    s.calls.map Call.moment = s.moments.filter Moment.isCall ∧
    s.calls.map Call.mail = s.world.submissions ∧
    (∀ key c, s.world.cursors.find? key = some c → s.LogAgrees key c) ∧
    (∀ e, Change.Transition e → ∀ w x v, e.on w = (.error x, v) → v.activities = w.activities) ∧
    (∀ key reason now w v, (Change.cancel key reason now).on w = (.ok false, v) →
      v.activities = w.activities) ∧
    ∀ g c node id now w x v, (Change.mailSent g c node id now).on w = (.error x, v) →
      v.activities = c.activity (.mailSent id) node.id now :: w.activities := by
  have hlogged := h.logged
  refine ⟨hlogged.calls_eq.1, hlogged.calls_eq.2, fun key c hc => hlogged.agrees hc,
    fun e he w x v hon => he.refused hon, fun key reason now w v hon => Change.cancel_refused hon,
    fun g c node id now w x v hon => Change.mailSent_refused hon⟩

/-- The lead whose campaign was canceled while the reminder was out: the cancellation is told of, then
the reminder. -/
theorem log_agrees_cutShort :
    Run .halting (fun _ => True) .cutShort ∧
    ∃ c, Session.cutShort.world.cursors.find? ⟨.ofNat 0, "ada"⟩ = some c ∧
      Session.cutShort.LogAgrees ⟨.ofNat 0, "ada"⟩ c ∧
      (Session.cutShort.world.told ⟨.ofNat 0, "ada"⟩).reverse.map (fun a => a.milestone.name) =
        ["lead_enrolled", "email_sent", "condition_resolved", "cursor_canceled", "email_sent"] := by
  have hsome : (Session.cutShort.world.cursors.find? ⟨.ofNat 0, "ada"⟩).isSome = true := by
    decide +kernel
  obtain ⟨c, hc⟩ := Option.isSome_iff_exists.1 hsome
  exact ⟨Played.cutShort.run, c, hc, (log_agrees Played.cutShort.run).2.2.1 _ c hc,
    by decide +kernel⟩

end Run

end MailCampaign
