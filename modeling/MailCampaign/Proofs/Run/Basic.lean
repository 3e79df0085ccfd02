import MailCampaign.Proofs.Engine.Rounds

/-!
# Runs of an engine

A run starts in an empty world and performs any operations one after another. It is recorded: a moment
is noted after each operation and each time the mailer looks at the world, that is as a mail is handed
over and after each interruption. So what a run can be seen to do is in its moments, the latest first.

1. Each operation takes a trail, so each moment follows from every earlier one along a course.
2. A mail is handed over only at a moment at which its cursor may send it, as the step of the trail
   says so.
-/

namespace MailCampaign

variable {σ : Type}

/-- Something that is asked of an engine from outside. -/
inductive Operation where
  | activate (campaign : Uuid) (document : Document) (now : Instant)
  | enroll (campaign : Uuid) (lead : Lead) (now : Instant)
  | ingest (e : Engagement) (now : Instant)
  | dispatch (key : CursorKey) (trigger : Trigger) (now : Instant)
  | tick (batchSize : UInt64) (now : Instant)
  | pause (campaign : Uuid) (now : Instant)
  | cancel (campaign : Uuid) (now : Instant)
  | resume (campaign : Uuid)
  | prune (ttlHours : UInt64) (now : Instant)
  | recover (now : Instant)

namespace Operation

/-- Performs an operation, whatever it answers. -/
def perform (svc : Services σ) : Operation → Engine σ PUnit
  | activate campaign document now => liftM (discard (Change.activate campaign document now))
  | enroll campaign lead now => discard (Engine.enroll svc campaign lead now)
  | ingest e now => discard (Engine.ingest svc e now)
  | dispatch key trigger now => discard (Engine.dispatch svc key trigger now)
  | tick batchSize now => discard (Engine.tick svc batchSize now)
  | pause campaign now => liftM (discard (Change.pause campaign now))
  | cancel campaign now => liftM (discard (Change.cancelCampaign campaign now))
  | resume campaign => liftM (Change.resume campaign)
  | prune ttlHours now => liftM (discard (Change.prune ttlHours now))
  | recover now => discard (Engine.recover svc now)

/-- An id that is drawn for a version is not the id of another version. -/
def Fresh (w : World) : Operation → Prop
  | activate _ _ _ => w.flows.find? (Uuid.ofNat w.nextId) = none
  | _ => True

/-- Every operation takes a trail. -/
theorem perform_trail {svc : Services σ} (op : Operation) {s : Session σ}
    (hfresh : op.Fresh s.world) : s.Trail svc .all ((op.perform svc).on s).2 := by
  cases op with
  | activate campaign document now =>
    unfold perform
    rw [Engine.on_lift, Change.on_discard]
    exact .of_course (Change.activate_course _ _ campaign document now hfresh)
  | enroll campaign lead now => exact (Engine.enroll_follows campaign lead now).discard s
  | ingest e now => exact (Engine.ingest_follows e now).discard s
  | dispatch key trigger now =>
    exact ((Engine.dispatch_follows key trigger now).mono (Scope.one_within_all key)).discard s
  | tick batchSize now => exact (Engine.tick_follows batchSize now).discard s
  | pause campaign now => exact Engine.Follows.lift (Change.pause_follows campaign now).discard s
  | cancel campaign now =>
    exact Engine.Follows.lift (Change.cancelCampaign_follows campaign now).discard s
  | resume campaign => exact Engine.Follows.lift (Change.resume_follows campaign) s
  | prune ttlHours now => exact Engine.Follows.lift (Change.prune_follows ttlHours now).discard s
  | recover now => exact (Engine.recover_follows now).discard s

end Operation

/-! ## Moments -/

/-- A moment of a run: the world as the mailer sees it in a scene, or between operations. -/
structure Moment where
  scene : Option Scene
  world : World

/-- Whether a mail is handed over at a moment. -/
def Moment.isCall (m : Moment) : Bool :=
  match m.scene with
  | some (.call _ _) => true
  | _ => false

/-- The mailer that also remembers every look at the world, the latest first. -/
def Mailer.recording (mailer : Mailer σ) : Mailer (σ × List Moment) where
  send state lead mail :=
    let (delivery, inner) := mailer.send state.1 lead mail
    (delivery, inner, state.2)
  look state scene w := (mailer.look state.1 scene w, ⟨some scene, w⟩ :: state.2)

/-- The typesetter beside a record that it leaves alone. -/
def Typesetter.recording (typesetter : Typesetter σ) : Typesetter (σ × List Moment) where
  render state name fields :=
    let (result, inner) := typesetter.render state.1 name fields
    (result, inner, state.2)
  look state w := (typesetter.look state.1 w, state.2)

/-- The services with the recording mailer. -/
def Services.recording (svc : Services σ) : Services (σ × List Moment) :=
  ⟨svc.mailer.recording, svc.renderer.recording, svc.retry⟩

namespace Session

/-- The moments so far, the latest first. -/
def moments (s : Session (σ × List Moment)) : List Moment := s.mailer.2

/-- The session with the moment between two operations noted. -/
def noted (s : Session (σ × List Moment)) : Session (σ × List Moment) :=
  ⟨s.world, s.mailer.1, ⟨none, s.world⟩ :: s.moments⟩

/-- The session at the start of a run. -/
def start (firstId : Nat) (mailer : σ) : Session (σ × List Moment) :=
  noted ⟨World.empty firstId, mailer, []⟩

end Session

/-- Rendering changes neither the world nor the record. -/
theorem Engine.render_recording (svc : Services σ) (mail : Mail) (lead : Lead)
    (s : Session (σ × List Moment)) :
    ∃ mailer, ((render svc.recording.renderer mail lead).on s).2 = ⟨s.world, mailer, s.moments⟩ := by
  unfold render
  cases mail.template <;> exact ⟨_, rfl⟩

/-- The session after an operation was performed, with the moment after it noted. -/
def Operation.next (svc : Services σ) (op : Operation) (s : Session (σ × List Moment)) :
    Session (σ × List Moment) := ((op.perform svc.recording).on s).2.noted

/-- A change of the world alone adds no moment but the one after it. -/
theorem Operation.moments_next {svc : Services σ} {op : Operation} {c : Change PUnit}
    (h : op.perform svc.recording = liftM c) (s : Session (σ × List Moment)) :
    (op.next svc s).moments = ⟨none, (op.next svc s).world⟩ :: s.moments := by
  unfold next
  rw [h]
  rfl

/-- The sessions that runs come to in which operations end in no faults but the allowed ones. -/
inductive Run (svc : Services σ) (allowed : Fault → Prop) : Session (σ × List Moment) → Prop
  | start (firstId : Nat) (mailer : σ) : Run svc allowed (.start firstId mailer)
  | step {s : Session (σ × List Moment)} (op : Operation) : Run svc allowed s → op.Fresh s.world →
      (∀ x, ((op.perform svc.recording).on s).1 = .error x → allowed x) →
      Run svc allowed (op.next svc s)

/-- A run goes on with an operation that succeeds. -/
theorem Run.succeed {svc : Services σ} {allowed : Fault → Prop} {s : Session (σ × List Moment)}
    (h : Run svc allowed s) (op : Operation) (hfresh : op.Fresh s.world)
    (hok : ((op.perform svc.recording).on s).1 = .ok ⟨⟩) : Run svc allowed (op.next svc s) :=
  h.step op hfresh fun x hx => by
    rw [hok] at hx
    cases hx

/-! ## What is recorded -/

variable {svc : Services σ} {s t : Session (σ × List Moment)} {n : Nat}

/-- The moments of a session that follows along courses from an empty world. -/
structure Session.Recorded (svc : Services σ) (n : Nat) (s : Session (σ × List Moment)) : Prop where
  /-- The world follows from the empty one. -/
  course : (World.empty n).Course svc.retry Scope.all.mailing s.world
  /-- So does the world of each moment, and the present world follows from it. -/
  between : ∀ m ∈ s.moments, (World.empty n).Course svc.retry Scope.all.mailing m.world ∧
    m.world.Course svc.retry Scope.all.mailing s.world
  /-- The world of each moment follows from those of the earlier ones. -/
  ordered : s.moments.Pairwise fun later earlier =>
    earlier.world.Course svc.retry Scope.all.mailing later.world
  /-- A mail is handed over for a cursor that may send it. -/
  calls : ∀ m ∈ s.moments, ∀ key now, m.scene = some (.call key now) → m.world.Mailing key

namespace Session.Recorded

/-- One more moment. -/
theorem note (h : s.Recorded svc n) (scene : Option Scene) (mailer : σ)
    (hcall : ∀ key now, scene = some (.call key now) → s.world.Mailing key) :
    Recorded svc n ⟨s.world, mailer, ⟨scene, s.world⟩ :: s.moments⟩ where
  course := h.course
  between := List.forall_mem_cons.2 ⟨⟨h.course, .refl⟩, h.between⟩
  ordered := List.pairwise_cons.2 ⟨fun m hm => (h.between m hm).2, h.ordered⟩
  calls := List.forall_mem_cons.2 ⟨hcall, h.calls⟩

/-- The world goes on. -/
theorem go (h : s.Recorded svc n) {w : World} (mailer : σ)
    (hw : s.world.Course svc.retry Scope.all.mailing w) :
    Recorded svc n ⟨w, mailer, s.moments⟩ where
  course := h.course.trans hw
  between := fun m hm => ⟨(h.between m hm).1, (h.between m hm).2.trans hw⟩
  ordered := h.ordered
  calls := h.calls

theorem shift (h : s.Recorded svc n) (ht : s.Shift svc.recording .all t) : t.Recorded svc n := by
  cases ht with
  | world hw => exact h.go _ (.single (hw.mono Scope.all.within_mailing))
  | render mail lead =>
    obtain ⟨mailer, hon⟩ := Engine.render_recording svc mail lead s
    rw [hon]
    exact h.go mailer .refl
  | call now hm =>
    refine h.note _ _ fun key' now' he => ?_
    cases he
    exact hm
  | hand lead mail => exact h.go _ (.single (.mailed _ trivial))
  | look i => exact h.note _ _ fun key now he => by cases he

theorem trail (h : s.Recorded svc n) (ht : s.Trail svc.recording .all t) : t.Recorded svc n := by
  induction ht with
  | refl => exact h
  | tail _ ht ih => exact ih.shift ht

end Session.Recorded

namespace Run

variable {allowed : Fault → Prop}

/-- A run is recorded. -/
theorem recorded (h : Run svc allowed s) : ∃ n, s.Recorded svc n := by
  induction h with
  | start firstId mailer =>
    refine ⟨firstId, ?_⟩
    have hbare : Session.Recorded svc firstId ⟨World.empty firstId, mailer, []⟩ :=
      ⟨.refl, fun _ h => absurd h List.not_mem_nil, .nil, fun _ h => absurd h List.not_mem_nil⟩
    exact hbare.note none mailer fun _ _ he => nomatch he
  | @step s op _ hfresh _ ih =>
    obtain ⟨n, hs⟩ := ih
    have htrail : s.Trail svc.recording .all ((op.perform svc.recording).on s).2 :=
      op.perform_trail hfresh
    exact ⟨n, (hs.trail htrail).note none _ fun _ _ he => nomatch he⟩

/-- The world of a moment leads to those of the later ones. -/
theorem later_of_split (h : Run svc allowed s) {later earlier : List Moment} {m m' : Moment}
    (hsplit : s.moments = later ++ m :: earlier) (hm' : m' ∈ later) :
    m.world.Course svc.retry Scope.all.mailing m'.world := by
  obtain ⟨n, hrec⟩ := h.recorded
  have hpair := hrec.ordered
  rw [hsplit] at hpair
  exact (List.pairwise_append.1 hpair).2.2 m' hm' m List.mem_cons_self

/-- What holds of every empty world and is preserved by every small step holds now and at every
moment of a run. -/
theorem always {P : World → Prop} (h : Run svc allowed s) (hempty : ∀ n, P (World.empty n))
    (hstep : ∀ u v : World, u.Shift svc.retry Scope.all.mailing v → P u → P v) :
    P s.world ∧ ∀ m ∈ s.moments, P m.world := by
  obtain ⟨n, hs⟩ := h.recorded
  exact ⟨hs.course.preserves (hempty n) hstep,
    fun m hm => (hs.between m hm).1.preserves (hempty n) hstep⟩

end Run

/-! ## A short run -/

/-- The run in which a flow with a loop is activated. -/
def Session.activated : Session (Nat × List Moment) :=
  (Operation.activate (.ofNat 7) .followUp .epoch).next .plain (.start 0 0)

/-- The run in which a lead is enrolled into that flow, too. -/
def Session.enrolled : Session (Nat × List Moment) :=
  (Operation.enroll (.ofNat 7) .ada .epoch).next .plain .activated

theorem run_enrolled (allowed : Fault → Prop) : Run .plain allowed .enrolled :=
  ((Run.start 0 0).succeed (.activate (.ofNat 7) .followUp .epoch) rfl (by decide +kernel)).succeed
    (.enroll (.ofNat 7) .ada .epoch) trivial (by decide +kernel)

/-- The run in which the campaign of the enrolled lead is paused. -/
def Session.paused : Session (Nat × List Moment) :=
  (Operation.pause (.ofNat 7) .epoch).next .plain .enrolled

/-- The run in which it is opened again. -/
def Session.resumed : Session (Nat × List Moment) :=
  (Operation.resume (.ofNat 7)).next .plain .paused

/-- The run in which it is canceled then. -/
def Session.stopped : Session (Nat × List Moment) :=
  (Operation.cancel (.ofNat 7) .epoch).next .plain .resumed

theorem run_stopped (allowed : Fault → Prop) : Run .plain allowed .stopped :=
  (((run_enrolled allowed).succeed (.pause (.ofNat 7) .epoch) trivial (by decide +kernel)).succeed
    (.resume (.ofNat 7)) trivial (by decide +kernel)).succeed (.cancel (.ofNat 7) .epoch) trivial
    (by decide +kernel)

theorem Session.moments_stopped :
    Session.stopped.moments = ⟨none, Session.stopped.world⟩ :: ⟨none, Session.resumed.world⟩ ::
      ⟨none, Session.paused.world⟩ :: Session.enrolled.moments := by
  have hpaused : Session.paused.moments = _ := Operation.moments_next rfl _
  have hresumed : Session.resumed.moments = _ := Operation.moments_next rfl _
  have hstopped : Session.stopped.moments = _ := Operation.moments_next rfl _
  rw [hstopped, hresumed, hpaused]
  rfl

end MailCampaign
