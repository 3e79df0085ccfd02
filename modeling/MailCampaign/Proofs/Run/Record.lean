import MailCampaign.Proofs.Run.Basic

/-!
# Recording changes nothing

The recording services do what the services do, so with them every operation answers the same and leads
to the same world. What is proved of the moments of runs is therefore true of the engine as it is.
-/

namespace MailCampaign

variable {σ : Type}

/-- The session without the record. -/
def Session.bare (s : Session (σ × List Moment)) : Session σ := ⟨s.world, s.mailer.1⟩

namespace Engine

variable {α β : Type}

/-- An operation that does what another one does, and records. -/
def Records (e : Engine (σ × List Moment) α) (f : Engine σ α) : Prop :=
  ∀ s : Session (σ × List Moment), f.on s.bare = ((e.on s).1, (e.on s).2.bare)

namespace Records

variable {e : Engine (σ × List Moment) α} {f : Engine σ α}

theorem pure (a : α) : Records (pure a : Engine (σ × List Moment) α) (pure a) := fun _ => rfl

theorem throw (x : Fault) : Records (throw x : Engine (σ × List Moment) α) (throw x) := fun _ => rfl

theorem lift (c : Change α) : Records (liftM c : Engine (σ × List Moment) α) (liftM c) :=
  fun _ => rfl

theorem bind {e' : α → Engine (σ × List Moment) β} {f' : α → Engine σ β} (h : Records e f)
    (h' : ∀ a, Records (e' a) (f' a)) : Records (e >>= e') (f >>= f') := by
  intro s
  have hs := h s
  rw [on_bind, on_bind, hs]
  rcases hr : e.on s with ⟨x | a, t⟩
  · rfl
  · exact h' a t

theorem map (g : α → β) (h : Records e f) : Records (g <$> e) (g <$> f) := by
  intro s
  rw [on_map, on_map, h s]

theorem discard (h : Records e f) : Records (discard e) (discard f) := h.map _

theorem tryCatch {e' : Fault → Engine (σ × List Moment) α} {f' : Fault → Engine σ α}
    (h : Records e f) (h' : ∀ x, Records (e' x) (f' x)) :
    Records (tryCatch e e') (tryCatch f f') := by
  intro s
  have hs := h s
  rw [on_tryCatch, on_tryCatch, hs]
  rcases hr : e.on s with ⟨x | a, t⟩
  · exact h' x t
  · rfl

theorem world {e' : World → Engine (σ × List Moment) β} {f' : World → Engine σ β}
    (h' : ∀ w, Records (e' w) (f' w)) :
    Records (Engine.world >>= e') (Engine.world >>= f') := by
  intro s
  rw [on_bind_ok (on_world s), on_bind_ok (on_world s.bare)]
  exact h' s.world s

end Records

/-! ## Steps -/

variable (svc : Services σ) (key : CursorKey) (now : Instant)

theorem bare_interruptions (lead : Lead) (l : List Interruption) (s : Session (σ × List Moment)) :
    (l.foldl (disturbed svc.mailer.recording lead now) s).bare =
      l.foldl (disturbed svc.mailer lead now) s.bare := by
  induction l generalizing s with
  | nil => rfl
  | cons i rest ih => exact ih _

theorem deliver_records (lead : Lead) (mail : Template) :
    Records (deliver svc.mailer.recording key lead mail now)
      (deliver svc.mailer key lead mail now) := by
  intro s
  let u := looked svc.mailer.recording (.call key now) s
  refine Prod.ext rfl ?_
  exact (bare_interruptions svc now lead (svc.mailer.send u.mailer.1 lead mail).1.interruptions
    (handedOver svc.mailer.recording lead mail u)).symm

theorem render_records (mail : Mail) (lead : Lead) :
    Records (render svc.recording.renderer mail lead) (render svc.renderer mail lead) := by
  unfold render
  cases mail.template <;> exact fun _ => rfl

theorem attempt_records (mail : Mail) (lead : Lead) :
    Records (attempt svc.recording key mail lead now) (attempt svc key mail lead now) := by
  refine (render_records svc mail lead).bind fun result => ?_
  cases result with
  | ok t => exact deliver_records svc key now lead t
  | error e => exact .pure _

theorem sendMail_records (g : Graph) (c : Cursor) (node : Node) (mail : Mail) :
    Records (sendMail svc.recording g c node mail now) (sendMail svc g c node mail now) := by
  refine .world fun w => ?_
  cases w.leads.find? c.leadId with
  | none => exact .lift _
  | some lead => exact (attempt_records svc c.key now mail lead).bind fun _ => .lift _

theorem perform_records (g : Graph) (c : Cursor) (node : Node) (trigger : Trigger) :
    Records (perform svc.recording g c node trigger now) (perform svc g c node trigger now) := by
  unfold perform
  split <;> first
    | (split <;> first | exact sendMail_records svc now g c node _ | exact .lift _ | exact .pure _)
    | exact .pure _

theorem execute_records (g : Graph) (trigger : Trigger) :
    Records (execute svc.recording g key trigger now) (execute svc g key trigger now) := by
  refine (Records.lift _).bind fun c => ?_
  split
  · exact .pure _
  · cases g.node? c.nodeId with
    | none => exact .lift _
    | some node =>
      refine (perform_records svc now g c node trigger).tryCatch fun x => ?_
      cases x with
      | clash => exact .pure _
      | _ => exact .throw _

/-! ## Dispatch and what is made of it -/

theorem dispatchOnce_records (trigger : Trigger) :
    Records (dispatchOnce svc.recording key trigger now) (dispatchOnce svc key trigger now) := by
  refine (Records.lift _).bind fun c => .world fun w => ?_
  split
  · exact .pure _
  · split
    · exact (Records.lift _).discard.bind fun _ => .pure _
    · exact (Records.lift _).bind fun g => execute_records svc key now g trigger

theorem dispatchSteps_records (n : Nat) (trigger : Trigger) :
    Records (dispatchSteps svc.recording key now n trigger)
      (dispatchSteps svc key now n trigger) := by
  induction n generalizing trigger with
  | zero => exact .pure _
  | succ n ih =>
    refine (dispatchOnce_records svc key now trigger).bind fun outcome => ?_
    cases outcome with
    | moved => exact ih .enter
    | _ => exact .pure _

theorem dispatch_records (trigger : Trigger) :
    Records (dispatch svc.recording key trigger now) (dispatch svc key trigger now) :=
  .world fun _ => dispatchSteps_records svc key now _ trigger

theorem dispatchEach_records (trigger : Trigger) (keys : List CursorKey) :
    Records (dispatchEach svc.recording trigger now keys) (dispatchEach svc trigger now keys) := by
  induction keys with
  | nil => exact .pure _
  | cons key rest ih =>
    refine Records.bind (.tryCatch ((dispatch_records svc key now trigger).map _) fun x => ?_)
      fun _ => ih.bind fun _ => .pure _
    cases x with
    | outOfRange => exact .throw _
    | _ => exact .pure _

theorem routeTo_records (e : Engagement) (keys : List CursorKey) :
    Records (routeTo svc.recording e now keys) (routeTo svc e now keys) := by
  induction keys with
  | nil => exact .pure _
  | cons key rest ih =>
    exact (dispatch_records svc key now (.event e)).bind fun _ => ih.bind fun _ => .pure _

theorem route_records (e : Engagement) :
    Records (route svc.recording e now) (route svc e now) := by
  refine .world fun w => ?_
  split
  · exact .pure _
  · exact (routeTo_records svc now e _).bind fun _ => .pure _

theorem ingest_records (e : Engagement) :
    Records (ingest svc.recording e now) (ingest svc e now) := by
  unfold ingest
  split
  · exact .lift _
  · refine (Records.lift _).bind fun first => ?_
    cases first with
    | false => exact .pure _
    | true =>
      exact (Records.lift _).bind fun _ => (route_records svc now e).bind fun _ =>
        (Records.lift _).bind fun _ => .pure _

end Engine

/-- **Recording changes nothing.** With the recording services an operation answers what it answers
without them, and leads to the same world and the same state of the mailer and the typesetter. -/
theorem Operation.perform_recording (svc : Services σ) (op : Operation) :
    Engine.Records (op.perform svc.recording) (op.perform svc) := by
  cases op with
  | activate => exact .lift _
  | enroll campaign lead now =>
    exact ((Engine.Records.lift _).bind fun key =>
      (Engine.dispatch_records svc key now .enter).discard.bind fun _ => .lift _).discard
  | ingest e now => exact (Engine.ingest_records svc now e).discard
  | dispatch key trigger now => exact (Engine.dispatch_records svc key now trigger).discard
  | tick batchSize now =>
    exact (Engine.Records.world fun _ =>
      (Engine.dispatchEach_records svc now .timer _).map _).discard
  | pause => exact .lift _
  | cancel => exact .lift _
  | resume => exact .lift _
  | prune => exact .lift _
  | recover now =>
    exact (Engine.Records.world fun _ =>
      (Engine.dispatchEach_records svc now .enter _).discard.bind fun _ => .pure _).discard

end MailCampaign
