import MailCampaign.Proofs.Engine.Halves
import MailCampaign.Proofs.Engine.Keep
import MailCampaign.Proofs.Run.Basic
import MailCampaign.Proofs.World.Posted

/-!
# Operations that post what they do

As the changes of the world are rows of postings, so are the operations of the engine, for every
mailer. Sending a mail adds no entry by itself, and what happens meanwhile is made of changes of the
world.
-/

namespace MailCampaign

variable {σ : Type}

/-- Sessions whose worlds stand in a relation. -/
def Session.Worlds (R : World → World → Prop) (s t : Session σ) : Prop := R s.world t.world

instance (R : World → World → Prop) [IsPreorder World R] :
    IsPreorder (Session σ) (Session.Worlds R) where
  refl := fun s => refl_of R s.world
  trans := fun _ _ _ h h' => trans_of R h h'

namespace Engine

open World Session

variable {α : Type} {svc : Services σ} {R : World → World → Prop} {c : Cursor} {g : Graph}
  {node : Node} {now : Instant}

theorem worlds_lift {e : Change α} (h : e.Keeps R) :
    (liftM e : Engine σ α).Keeps (Worlds R) := fun s => h s.world

/-- Rendering a mail changes nothing in the world. -/
theorem worlds_render [IsPreorder World R] (typesetter : Typesetter σ) (mail : Mail) (lead : Lead) :
    (render typesetter mail lead).Keeps (Worlds R) := fun s => by
  show R s.world _
  rw [world_render]
  exact refl_of R s.world

theorem Keeps.postsFor {e : Engine σ α} (h : e.Keeps (Worlds (Postings False))) (c : Cursor) :
    e.Keeps (Worlds (PostsFor c)) := fun s => (h s).postsFor c

theorem interruption_posts (lead : Lead) (i : Interruption) :
    (interruption lead now i).Keeps (Postings False) := by
  cases i with
  | pause campaign => exact Change.pause_posts.discard
  | cancel campaign => exact Change.cancelCampaign_posts.discard
  | unsubscribe campaign key => exact Change.ingestHalting_posts.discard
  | unsubscribeOther leadId campaign key => exact Change.ingestHalting_posts.discard

theorem deliver_posts (mailer : Mailer σ) (key : CursorKey) (lead : Lead) (mail : Template) :
    (deliver mailer key lead mail now).Keeps (Worlds (Postings False)) := by
  intro s
  have hmeanwhile : ∀ (l : List Interruption) (s : Session σ),
      Worlds (Postings False) s (l.foldl (disturbed mailer lead now) s) := by
    intro l
    induction l with
    | nil => exact fun s => .refl
    | cons i rest ih =>
      exact fun s => (interruption_posts lead i s.world).trans (ih (disturbed mailer lead now s i))
  have hsent : Worlds (Postings False) s
      (handedOver mailer lead mail (looked mailer (.call key now) s)) :=
    (Posting.told fun _ h => by cases h).single
  exact hsent.trans (hmeanwhile _ _)

theorem sendMail_posts {mail : Mail} :
    (sendMail svc g c node mail now).Keeps (Worlds (PostsFor c)) := by
  refine .world fun w => ?_
  cases w.leads.find? c.leadId with
  | none => exact worlds_lift (Change.fail_posts.for c)
  | some lead =>
    have hattempt : (attempt svc c.key mail lead now).Keeps (Worlds (PostsFor c)) :=
      .attempt (worlds_render _ _ _) fun t => (deliver_posts _ _ _ t).postsFor c
    exact hattempt.bind fun result => worlds_lift Change.settleMail_posts

theorem perform_posts {trigger : Trigger} :
    (perform svc g c node trigger now).Keeps (Worlds (PostsFor c)) := by
  have hhandle : (Change.handle g c node trigger now).Keeps (PostsFor c) :=
    .handle (fun _ => Change.scheduleDelay_posts.for c) Change.advance_posts
      (fun _ => Change.enterCondition_posts) (fun _ => Change.resolve_posts)
      (fun _ _ => Change.observe_posts) Change.reachGoal_posts
  rw [perform_eq]
  split
  · exact sendMail_posts
  · exact worlds_lift hhandle

theorem execute_posts {key : CursorKey} {trigger : Trigger} :
    (execute svc g key trigger now).Keeps (Worlds (Postings False)) := by
  intro s
  unfold execute
  cases hc : s.world.cursors.find? key with
  | none =>
    rw [on_bind_error (on_cursor_none hc)]
    exact .refl
  | some c =>
    obtain rfl := CursorStore.key_eq_of_find? hc
    rw [on_bind_ok (on_cursor_some hc)]
    by_cases ht : c.state.terminal = true
    · rw [if_pos ht]
      exact .refl
    rw [if_neg ht]
    cases g.node? c.nodeId with
    | none => exact worlds_lift Change.fail_posts s
    | some node =>
      have hact : (ignoreClash (perform svc g c node trigger now)).Keeps (Worlds (PostsFor c)) := by
        refine .tryCatch perform_posts fun x => ?_
        cases x with
        | clash => exact .pure _
        | _ => exact .throw _
      exact hact s (.of_find? hc)

theorem dispatchOnce_posts {key : CursorKey} {trigger : Trigger} :
    (dispatchOnce svc key trigger now).Keeps (Worlds (Postings False)) := by
  refine (worlds_lift (.cursor key)).bind fun c => .world fun w => ?_
  split
  · exact .pure _
  · split
    · exact (worlds_lift Change.cancel_posts).discard.bind fun _ => .pure _
    · exact (worlds_lift (.need _ _)).bind fun g => execute_posts

theorem dispatch_posts (trigger : Trigger) (key : CursorKey) :
    (dispatch svc key trigger now).Keeps (Worlds (Postings False)) :=
  .dispatch (fun _ => dispatchOnce_posts) trigger

end Engine

namespace Operation

variable {svc : Services σ}

/-- Whether an operation forgets keys that were seen. -/
def Prunes : Operation → Prop
  | prune _ _ => True
  | _ => False

/-- Every operation posts what it does; only pruning forgets keys. -/
theorem perform_postings (op : Operation) {s : Session σ} (hfresh : op.Fresh s.world) :
    s.world.Postings op.Prunes ((op.perform svc).on s).2.world := by
  cases op with
  | activate campaign document now =>
    unfold perform
    rw [Engine.on_lift, Change.on_discard]
    exact Change.activate_postings campaign document now hfresh
  | enroll campaign lead now =>
    exact (Engine.Keeps.enroll (Engine.worlds_lift Change.addLead_posts)
      (Engine.dispatch_posts .enter) fun key => Engine.worlds_lift (.cursor key)).discard s
  | ingest e now =>
    exact (Engine.Keeps.ingest (Engine.worlds_lift Change.ingestHalting_posts)
      (Engine.worlds_lift Change.receive_posts) (Engine.worlds_lift Change.count_posts)
      (Engine.worlds_lift Change.settle_posts) (Engine.dispatch_posts (.event e))).discard s
  | dispatch key trigger now => exact (Engine.dispatch_posts trigger key).discard s
  | tick batchSize now => exact (Engine.Keeps.tick (Engine.dispatch_posts .timer) batchSize).discard s
  | pause campaign now => exact Engine.worlds_lift Change.pause_posts.discard s
  | cancel campaign now => exact Engine.worlds_lift Change.cancelCampaign_posts.discard s
  | resume campaign => exact Engine.worlds_lift Change.resume_posts s
  | prune ttlHours now => exact Engine.worlds_lift Change.prune_posts.discard s
  | recover now => exact (Engine.Keeps.recover (Engine.dispatch_posts .enter)).discard s

end Operation

variable {svc : Services σ} {allowed : Fault → Prop} {s : Session (σ × List Moment)}

/-- The world of a run comes from the empty one by postings. -/
theorem Run.postings (h : Run svc allowed s) : ∃ n, (World.empty n).Postings True s.world := by
  induction h with
  | start firstId mailer => exact ⟨firstId, .refl⟩
  | step op _ hfresh _ ih =>
    obtain ⟨n, hn⟩ := ih
    exact ⟨n, hn.trans ((op.perform_postings hfresh).mono fun _ => trivial)⟩

end MailCampaign
