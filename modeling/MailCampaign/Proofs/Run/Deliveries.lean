import MailCampaign.Proofs.Engine.Keep
import MailCampaign.Proofs.Run.Basic
import MailCampaign.Proofs.World.MailCounted

/-!
# The deliveries of a run

As far as mails are concerned a run takes strides of two kinds: one in which nothing about mails
happens, and the delivery of one mail from the call of the mailer to what is made of its answer. In a
delivery the cursor of the mail takes no turn before the answer is there, but it may be canceled, and
then the mailer has seen it canceled.
-/

namespace MailCampaign

variable {σ : Type}

/-- The id of the message, if the mail was accepted. -/
def Submission.messageId? (s : Submission) : Option String := s.result.toOption

/-- The key of the event that an interruption brings in. -/
def Interruption.key? : Interruption → Option String
  | .unsubscribe _ key => some key
  | .unsubscribeOther _ _ key => some key
  | _ => none

namespace Moment

/-- The cursor whose mail is handed over at a moment. -/
def call? (m : Moment) : Option CursorKey :=
  match m.scene with
  | some (.call key _) => some key
  | _ => none

/-- An interruption has just happened. -/
def Interrupted (m : Moment) : Prop := ∃ i, m.scene = some (.interrupted i)

/-- The key of the event that the interruption of a moment brought in. -/
def eventKey? (m : Moment) : Option String :=
  match m.scene with
  | some (.interrupted i) => i.key?
  | _ => none

/-- The interruptions at some moments brought in an event of a key. -/
def BringsIn (ms : List Moment) (key : String) : Prop := key ∈ ms.filterMap eventKey?

theorem BringsIn.mono {ms ms' : List Moment} {key : String} (h : BringsIn ms key) (hms : ms ⊆ ms') :
    BringsIn ms' key := by
  obtain ⟨m, hm, hkey⟩ := List.mem_filterMap.1 h
  exact List.mem_filterMap.2 ⟨m, hms hm, hkey⟩

end Moment

namespace Session

/-- The mail of a running cursor goes out: from the call of the mailer to what is made of the answer. -/
structure Delivers (key : CursorKey) (mail : Submission) (during : List Moment)
    (s t : Session (σ × List Moment)) : Prop where
  moments : ∃ now, t.moments = during ++ ⟨some (.call key now), s.world⟩ :: s.moments
  interrupted : ∀ m ∈ during, m.Interrupted
  mails : t.world.submissions = mail :: s.world.submissions
  /-- The cursor is `c` at the call and `d` in the world `u` in which the answer is there. -/
  settled : ∃ c u d, s.world.cursors.find? key = some c ∧ c.state.terminal = false ∧
    (s.world.emit (.submission mail)).Unmailed (Moment.BringsIn during) u ∧
    u.cursors.find? key = some d ∧
    (d.state.terminal = true → d.state = .canceled ∧ ∃ m ∈ during, m.world = u) ∧
    match mail.messageId? with
    | none => u.Unmailed (fun _ => False) t.world
    | some id => u.statistics.applied.find? (sentKey id) = none → u.MailCounted key d id t.world

/-- One stride of a session. Events come in under the given keys. -/
inductive Stride (keys : String → Prop) (s : Session (σ × List Moment)) :
    Session (σ × List Moment) → Prop
  /-- Nothing about mails happens. -/
  | unmailed {w : World} {mailer : σ} : s.world.Unmailed keys w →
      Stride keys s ⟨w, mailer, s.moments⟩
  /-- The mail of a cursor goes out. -/
  | delivered {key : CursorKey} {mail : Submission} {during : List Moment}
      {t : Session (σ × List Moment)} : s.Delivers key mail during t → Stride keys s t

/-- Any number of strides. -/
abbrev Strides (keys : String → Prop) : Session (σ × List Moment) → Session (σ × List Moment) → Prop :=
  Relation.ReflTransGen (Stride keys)

instance (keys : String → Prop) : IsPreorder (Session (σ × List Moment)) (Strides keys) where
  refl := fun _ => .refl
  trans := fun _ _ _ => .trans

end Session

namespace Engine

open Session

variable {svc : Services σ} {keys : String → Prop} {now : Instant} {lead : Lead}
  {s : Session (σ × List Moment)}

theorem interruption_unmailed (i : Interruption) :
    (interruption lead now i).Keeps (World.Unmailed fun key => i.key? = some key) := by
  have hhalting : ∀ leadId campaign key, i.key? = some key →
      (discard (Change.ingestHalting (unsubscription leadId campaign key now) now)).Keeps
        (World.Unmailed fun key => i.key? = some key) := fun leadId campaign key hi =>
    (Change.ingestHalting_unmailed (fun h => EngagementKind.noConfusion h) hi).discard
  cases i with
  | pause campaign => exact Change.pause_unmailed.discard
  | cancel campaign => exact Change.cancelCampaign_unmailed.discard
  | unsubscribe campaign key => exact hhalting lead.id campaign key rfl
  | unsubscribeOther leadId campaign key => exact hhalting leadId campaign key rfl

/-- What happens while a mailer is at work is recorded. -/
theorem interruptions_recorded (svc : Services σ) (lead : Lead) (now : Instant)
    (l : List Interruption) (s : Session (σ × List Moment)) :
    ∃ during, (l.foldl (disturbed svc.recording.mailer lead now) s).moments = during ++ s.moments ∧
      (∀ m ∈ during, m.Interrupted) ∧
      s.world.Unmailed (Moment.BringsIn during)
        (l.foldl (disturbed svc.recording.mailer lead now) s).world ∧
      ((l.foldl (disturbed svc.recording.mailer lead now) s).world = s.world ∨
        ∃ m ∈ during, m.world = (l.foldl (disturbed svc.recording.mailer lead now) s).world) := by
  induction l generalizing s with
  | nil => exact ⟨[], rfl, fun _ h => absurd h List.not_mem_nil, .refl _, .inl rfl⟩
  | cons i rest ih =>
    let m : Moment := ⟨some (.interrupted i), interrupted lead now s.world i⟩
    obtain ⟨during, hmoments, hinterrupted, hquiet, hseen⟩ :=
      ih (disturbed svc.recording.mailer lead now s i)
    have hlast : m ∈ during ++ [m] := List.mem_append_right _ (List.mem_singleton_self m)
    have hfirst : s.world.Unmailed (Moment.BringsIn (during ++ [m])) m.world :=
      (interruption_unmailed i s.world).mono fun key hi => List.mem_filterMap.2 ⟨m, hlast, hi⟩
    have hrest : ∀ key, Moment.BringsIn during key → Moment.BringsIn (during ++ [m]) key :=
      fun key h => h.mono (List.subset_append_left _ _)
    refine ⟨during ++ [m], ?_, ?_, hfirst.trans (hquiet.mono hrest), .inr ?_⟩
    · rw [List.append_assoc]
      exact hmoments
    · intro m' hm'
      rcases List.mem_append.1 hm' with hm' | hm'
      · exact hinterrupted m' hm'
      · exact ⟨i, List.mem_singleton.1 hm' ▸ rfl⟩
    · rcases hseen with hsame | ⟨m', hm', hw⟩
      · exact ⟨m, hlast, hsame.symm⟩
      · exact ⟨m', List.mem_append_left _ hm', hw⟩

/-- Rendering a mail is a stride. -/
theorem render_strides (svc : Services σ) (mail : Mail) (lead : Lead) :
    (render svc.recording.renderer mail lead).Keeps (Strides keys) := by
  intro s
  obtain ⟨mailer, hon⟩ := render_recording svc mail lead s
  rw [hon]
  exact .single (.unmailed (.refl _))

/-- A change without mail is a stride. -/
theorem strides_lift {α : Type} {c : Change α} (h : c.Keeps (World.Unmailed keys)) :
    (liftM c : Engine (σ × List Moment) α).Keeps (Strides keys) := by
  intro s
  rw [on_lift]
  exact .single (.unmailed (h s.world))

variable {g : Graph} {c : Cursor} {node : Node}

/-- The mail of a running cursor is handed over and the answer is settled. -/
theorem delivers (svc : Services σ) (g : Graph) (mail : Template) (lead : Lead)
    (hc : s.world.cursors.find? c.key = some c) (hr : c.state.terminal = false)
    (hn : c.nodeId = node.id) (hs : c.Sendable now) :
    ∃ sent during, s.Delivers c.key sent during
      ((deliver svc.recording.mailer c.key lead mail now >>= fun result =>
        (liftM (Change.settleMail svc.recording.retry g c node now result) :
          Engine (σ × List Moment) Outcome)).on s).2 := by
  let called := looked svc.recording.mailer (.call c.key now) s
  let answer := (svc.recording.mailer.send called.mailer lead mail).1
  let handed := handedOver svc.recording.mailer lead mail called
  let back := answer.interruptions.foldl (disturbed svc.recording.mailer lead now) handed
  have hon : (deliver svc.recording.mailer c.key lead mail now).on s = (.ok answer.result, back) :=
    rfl
  have hrecorded : ∃ during, back.moments = during ++ handed.moments ∧
      (∀ m ∈ during, m.Interrupted) ∧
      handed.world.Unmailed (Moment.BringsIn during) back.world ∧
      (back.world = handed.world ∨ ∃ m ∈ during, m.world = back.world) :=
    interruptions_recorded svc lead now answer.interruptions handed
  obtain ⟨during, hmoments, hinterrupted, hquiet, hseen⟩ := hrecorded
  -- Meanwhile no cursor takes a turn, so this one is at most canceled or counted on.
  have htrail : handed.Trail svc.recording .idle back :=
    interruptions_trail lead now answer.interruptions handed
  have hcourse := htrail.course
  obtain ⟨d, hd, hidle⟩ := hcourse.canceled_or_counted id hc
  rw [on_bind_ok hon, on_lift]
  refine ⟨⟨lead, mail, answer.result⟩, during, ⟨now, hmoments⟩, hinterrupted, ?_, c, back.world, d,
    hc, hr, hquiet, hd, fun ht => ?_, ?_⟩
  · exact (Change.settleMail_sameMails _ g c node now answer.result back.world).trans
      hquiet.submissions
  · have hcanceled : d.state = .canceled := by
      refine hidle.resolve_right fun heq => ?_
      rw [heq] at ht
      rw [ht] at hr
      cases hr
    -- Without an interruption the cursor would still run.
    refine ⟨hcanceled, hseen.resolve_left fun hsame => ?_⟩
    rw [hsame] at hd
    obtain rfl : c = d := Option.some.inj (hc.symm.trans hd)
    rw [ht] at hr
    cases hr
  · cases hresult : answer.result with
    | error fault => exact Change.settleMail_unmailed _
    | ok id =>
      intro hnew
      have hran : d.state.terminal = false → d = { c with counters := d.counters } := fun hd' =>
        hidle.resolve_left fun h => by rw [h] at hd'; cases hd'
      refine Change.mailSent_counted hd ?_ (fun hd' => ?_) hnew
      · obtain ⟨d', hd', hsame⟩ := hcourse.stored hc
        obtain rfl : d' = d := Option.some.inj (hd'.symm.trans hd)
        exact hsame.campaignId
      · rw [hran hd']
        exact ⟨hn, hs⟩

/-- Sending the mail of a step is a stride. -/
theorem sendMail_strides (svc : Services σ) (g : Graph) (mail : Mail)
    (hc : s.world.cursors.find? c.key = some c) (hr : c.state.terminal = false)
    (hn : c.nodeId = node.id) (hs : c.Sendable now) :
    Strides keys s ((sendMail svc.recording g c node mail now).on s).2 := by
  unfold sendMail
  rw [on_bind_ok (on_world s)]
  cases s.world.leads.find? c.leadId with
  | none => exact strides_lift Change.fail_unmailed s
  | some lead =>
    have hrendered : Strides keys s ((render svc.recording.renderer mail lead).on s).2 :=
      render_strides svc mail lead s
    have hworld := world_render svc.recording.renderer mail lead s
    obtain ⟨result, hon⟩ := on_render svc.recording.renderer mail lead s
    unfold attempt
    dsimp only
    rw [bind_assoc, on_bind_ok hon]
    cases result with
    | error fault => exact hrendered.trans (strides_lift Change.settleMail_unmailed _)
    | ok t =>
      obtain ⟨sent, during, h⟩ := delivers svc g t lead (hworld.symm ▸ hc) hr hn hs
      exact hrendered.tail (.delivered h)

/-! ## Operations -/

theorem perform_strides (svc : Services σ) (g : Graph) (trigger : Trigger)
    (hc : s.world.cursors.find? c.key = some c) (hr : c.state.terminal = false)
    (hn : c.nodeId = node.id) :
    Strides keys s ((perform svc.recording g c node trigger now).on s).2 := by
  have hguard : ∀ {p : Prop} [Decidable p] {e : Engine (σ × List Moment) Outcome},
      (p → Strides keys s (e.on s).2) →
      Strides keys s ((if p then e else return .ignored).on s).2 := by
    intro p _ e h
    split
    · next hp => exact h hp
    · exact .refl
  unfold perform
  split
  · exact hguard fun he => sendMail_strides svc g _ hc hr hn (.inl he)
  · exact hguard fun hd => sendMail_strides svc g _ hc hr hn (.inr hd)
  · exact hguard fun _ => strides_lift Change.scheduleDelay_unmailed s
  · exact hguard fun _ => strides_lift (Change.advance_unmailed (by decide)) s
  · exact hguard fun _ => strides_lift Change.enterCondition_unmailed s
  · exact hguard fun _ => strides_lift Change.resolve_unmailed s
  · exact hguard fun _ => strides_lift Change.observe_unmailed s
  · exact hguard fun _ => strides_lift Change.reachGoal_unmailed s
  · exact .refl

theorem execute_strides (svc : Services σ) (g : Graph) (trigger : Trigger)
    (hc : s.world.cursors.find? c.key = some c) (hr : c.state.terminal = false) :
    Strides keys s ((execute svc.recording g c.key trigger now).on s).2 := by
  unfold execute
  rw [on_bind_ok (on_cursor_some hc), hr, if_neg Bool.false_ne_true]
  cases hn : g.node? c.nodeId with
  | none => exact strides_lift Change.fail_unmailed s
  | some node =>
    have hperform : Strides keys s ((perform svc.recording g c node trigger now).on s).2 :=
      perform_strides svc g trigger hc hr (Graph.id_of_node? hn).symm
    dsimp only
    rw [on_ignoreClash]
    rcases hon : (perform svc.recording g c node trigger now).on s with ⟨x | o, t⟩ <;>
      rw [hon] at hperform
    · cases x <;> exact hperform
    · exact hperform

theorem dispatchOnce_strides (svc : Services σ) (key : CursorKey) (trigger : Trigger)
    (now : Instant) : (dispatchOnce svc.recording key trigger now).Keeps (Strides keys) := by
  intro s
  unfold dispatchOnce
  cases hc : s.world.cursors.find? key with
  | none =>
    rw [on_bind_error (on_cursor_none hc)]
  | some c =>
    obtain rfl := CursorStore.key_eq_of_find? hc
    rw [on_bind_ok (on_cursor_some hc), on_bind_ok (on_world s)]
    cases hr : c.state.terminal with
    | true => exact .refl
    | false =>
      rw [if_neg Bool.false_ne_true]
      split
      · exact ((strides_lift Change.cancel_unmailed).discard.bind fun _ => .pure _) s
      · cases s.world.flows.find? c.key.flowId with
        | none => exact .refl
        | some g => exact execute_strides svc g trigger hc hr

end Engine

namespace Operation

variable {svc : Services σ} {keys : String → Prop}

/-- An operation takes strides, when an event that it brings in is none of a mail that was sent. -/
theorem perform_strides (op : Operation)
    (hop : ∀ e now, op = ingest e now → e.kind ≠ .sent ∧ keys e.key) :
    (op.perform svc.recording).Keeps (Session.Strides keys) := by
  have hdispatch : ∀ trigger now key,
      (Engine.dispatch svc.recording key trigger now).Keeps (Session.Strides keys) :=
    fun trigger now key =>
      .dispatch (fun trigger => Engine.dispatchOnce_strides svc key trigger now) trigger
  cases op with
  | activate campaign document now => exact Engine.strides_lift Change.activate_unmailed.discard
  | enroll campaign lead now =>
    exact (Engine.Keeps.enroll (Engine.strides_lift Change.addLead_unmailed) (hdispatch .enter now)
      fun key => Engine.strides_lift (.cursor key)).discard
  | ingest e now =>
    obtain ⟨hkind, hkey⟩ := hop e now rfl
    exact (Engine.Keeps.ingest (Engine.strides_lift (Change.ingestHalting_unmailed hkind hkey))
      (Engine.strides_lift Change.receive_unmailed)
      (Engine.strides_lift (Change.count_unmailed hkind hkey))
      (Engine.strides_lift Change.settle_unmailed) (hdispatch (.event e) now)).discard
  | dispatch key trigger now => exact (hdispatch trigger now key).discard
  | tick batchSize now => exact (Engine.Keeps.tick (hdispatch .timer now) batchSize).discard
  | pause campaign now => exact Engine.strides_lift Change.pause_unmailed.discard
  | cancel campaign now => exact Engine.strides_lift Change.cancelCampaign_unmailed.discard
  | resume campaign => exact Engine.strides_lift Change.resume_unmailed
  | prune ttlHours now => exact Engine.strides_lift Change.prune_unmailed.discard
  | recover now => exact (Engine.Keeps.recover (hdispatch .enter now)).discard

end Operation

end MailCampaign
