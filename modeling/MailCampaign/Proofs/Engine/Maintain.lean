import MailCampaign.Proofs.Engine.Follow
import MailCampaign.Proofs.Engine.Handover
import MailCampaign.Proofs.Engine.Window

/-!
# Facts that last

A fact about sessions lasts when it goes on holding as the world takes a course, as a mail is rendered,
and as the mail of a cursor is handed over and the answer settled. It may be lost where an operation
ends in a fault that is not allowed, which can only be that a time was out of range.

1. Running the step of a cursor is its opening, which takes a course, and the mail with what follows
   (`Lasting.execute`). No campaign has to be active for this.
2. All operations are put together from such steps and from changes of the world that take courses.
   So a fact that lasts is maintained by all of them.
-/

namespace MailCampaign

variable {σ : Type}

/-! ## Openings -/

namespace Change

variable {policy : RetryPolicy} {g : Graph} {c : Cursor} {node : Node}
  {trigger : Trigger} {now : Instant} {w : World}

theorem fail_course {key : CursorKey} {reason : String} (hc : w.cursors.find? key = some c) :
    w.Course policy (.one key) ((fail key reason now).on w).2 := by
  have hsteps : (fail key reason now).Steps policy (.one key) key (fun _ => True) False w :=
    fail_steps reason rfl hc
  exact hsteps.course

/-- A step without mail takes a course in which its cursor alone takes turns. -/
theorem handle_course (hc : w.cursors.find? c.key = some c) (hat : c.At w.flows g node) :
    w.Course policy (.one c.key) ((handle g c node trigger now).on w).2 := by
  have hturns : (Scope.one c.key).turns c.key := rfl
  have hguard : ∀ (p : Prop) [Decidable p] (d : Change Outcome),
      (p → w.Course policy (.one c.key) (d.on w).2) →
      w.Course policy (.one c.key) ((if p then d else pure .ignored : Change Outcome).on w).2 := by
    intro p _ d hd
    split
    · next hp => exact hd hp
    · exact .refl
  unfold handle
  split
  · next wait ha =>
    refine hguard _ _ fun he => ?_
    have hsteps : (scheduleDelay c node wait now).Steps policy (.one c.key) c.key (g.Joins node.id)
        False w := scheduleDelay_steps hturns hc hat ha he
    exact hsteps.course
  · next ha => exact hguard _ _ fun hd => (advance_steps hturns hc hat (.elapsed ha hd.1 hd.2)).course
  · next k ha => exact hguard _ _ fun he => (enterCondition_steps hturns hc hat ha he).course
  · next k ha => exact hguard _ _ fun hs => (resolve_steps hturns hc hat ha hs).course
  · next k e ha => exact hguard _ _ fun hs => (observe_steps hturns hc hat ha hs).course
  · next goal ha =>
    refine hguard _ _ fun he => ?_
    have hsteps : (reachGoal c node now).Steps policy (.one c.key) c.key (g.Joins node.id) False w :=
      reachGoal_steps hturns hc hat ha he
    exact hsteps.course
  · exact .refl

theorem openStep_course (hc : w.cursors.find? c.key = some c) (hat : c.At w.flows g node) :
    w.Course policy (.one c.key) ((openStep g c node trigger now).on w).2 := by
  have hturns : (Scope.one c.key).turns c.key := rfl
  have hended : ∀ d : Change Outcome, w.Course policy (.one c.key) (d.on w).2 →
      w.Course policy (.one c.key) ((Opened.ended <$> hushed d).on w).2 := by
    intro d hd
    rw [on_map, hushed_snd]
    exact hd
  unfold openStep
  split
  · exact hended _ (handle_course hc hat)
  · rw [on_bind_ok (on_get w)]
    split
    · exact hended _ (fail_course hc)
    · exact .refl

end Change

/-! ## Operations -/

namespace Engine

variable {α β : Type} {I : Session σ → Prop} {allowed : Fault → Prop}

/-- An operation that leads from a session of which a fact holds to another one, unless it ends in a
fault that is not allowed. -/
def Maintains (I : Session σ → Prop) (allowed : Fault → Prop) (e : Engine σ α) : Prop :=
  ∀ s : Session σ, I s → (∀ x, (e.on s).1 = .error x → allowed x) → I (e.on s).2

namespace Maintains

theorem pure (a : α) : (pure a : Engine σ α).Maintains I allowed := fun _ hs _ => hs

theorem bind {e : Engine σ α} {f : α → Engine σ β} (he : e.Maintains I allowed)
    (hf : ∀ a, (f a).Maintains I allowed) : (e >>= f).Maintains I allowed := by
  intro s hs hfaults
  rw [on_bind] at hfaults ⊢
  rcases hon : e.on s with ⟨x | a, t⟩ <;> rw [hon] at hfaults
  · have ht := he s hs fun y hy => hfaults y (by rw [hon] at hy; rw [Except.error.inj hy])
    rwa [hon] at ht
  · have ht := he s hs fun y hy => by rw [hon] at hy; cases hy
    rw [hon] at ht
    exact hf a t ht hfaults

theorem map {e : Engine σ α} (f : α → β) (he : e.Maintains I allowed) :
    (f <$> e).Maintains I allowed := by
  rw [map_eq_pure_bind]
  exact he.bind fun a => pure (f a)

theorem discard {e : Engine σ α} (he : e.Maintains I allowed) :
    (discard e).Maintains I allowed := he.map _

/-- An operation that looks at the world first. -/
theorem world {f : World → Engine σ α} (hf : ∀ w, (f w).Maintains I allowed) :
    (Engine.world >>= f).Maintains I allowed := bind (fun _ hs _ => hs) hf

/-- An operation whose faults are its outcome, but for a time out of range. -/
theorem kept {e : Engine σ α} (hallowed : ∀ x, x ≠ .outOfRange → allowed x)
    (he : e.Maintains I allowed) : (kept e).Maintains I allowed := by
  intro s hs hfaults
  rw [on_kept] at hfaults ⊢
  have ht := he s hs
  rcases hon : e.on s with ⟨x | a, t⟩ <;> rw [hon] at hfaults ht
  · have hx : allowed x := by
      by_cases hrange : x = .outOfRange
      · subst hrange
        exact hfaults .outOfRange rfl
      · exact hallowed x hrange
    have hheld := ht fun y hy => Except.error.inj hy ▸ hx
    cases x <;> exact hheld
  · exact ht nofun

end Maintains

/-- A fact that goes on holding as the world takes a course, as a mail is rendered, and as the mail of a
cursor is handed over and the answer settled. -/
structure Lasting (svc : Services σ) (allowed : Fault → Prop) (I : Session σ → Prop) : Prop where
  otherFaults : ∀ x, x ≠ .outOfRange → allowed x
  course : ∀ (s : Session σ) (w : World), I s →
    s.world.Course svc.retry Scope.all.mailing w → I { s with world := w }
  render : ∀ (s : Session σ) (mail : Mail) (lead : Lead), I s →
    I ((render svc.renderer mail lead).on s).2
  mail : ∀ (s : Session σ) (key : CursorKey) (now : Instant) (h : Handover) (t : Template), I s →
    h.Due key now s.world →
    (∀ x, ((handOn svc key now h t).on s).1 = .error x → allowed x) →
    I ((handOn svc key now h t).on s).2

namespace Lasting

variable {svc : Services σ} {key : CursorKey} {trigger : Trigger} {now : Instant} {g : Graph}

/-- A change that takes courses. -/
theorem lift (h : Lasting svc allowed I) {scope : Scope} {c : Change α}
    (hc : c.Follows svc.retry scope) (hscope : scope.Within Scope.all.mailing) :
    (liftM c : Engine σ α).Maintains I allowed := by
  intro s hs _
  rw [on_lift]
  exact h.course s _ hs ((hc s.world).mono hscope)

/-- A change in which no cursor takes a turn. -/
theorem idle (h : Lasting svc allowed I) {c : Change α} (hc : c.Follows svc.retry .idle) :
    (liftM c : Engine σ α).Maintains I allowed := h.lift hc (Scope.idle_within _)

theorem one_within (key : CursorKey) : (Scope.one key).Within Scope.all.mailing :=
  ⟨fun _ _ => trivial, False.elim⟩

/-! ## Steps -/

/-- The mail of a cursor maintains a fact that lasts, rendered or not. -/
theorem goOn (h : Lasting svc allowed I) {s : Session σ} (hs : I s) {handover : Handover}
    (hdue : handover.Due key now s.world)
    (hfaults : ∀ x, ((Engine.goOn svc key now (.sends handover)).on s).1 = .error x → allowed x) :
    I ((Engine.goOn svc key now (.sends handover)).on s).2 := by
  have hrendered := h.render s handover.mail handover.lead hs
  have hworld := world_render svc.renderer handover.mail handover.lead s
  rcases on_goOn svc key now handover s with ⟨e, he⟩ | ⟨t, ht⟩
  · rw [he, on_lift, hworld]
    have hidle : ¬ Scope.idle.turns key := id
    have hcourse : s.world.Course svc.retry (.one key) _ :=
      Change.closing_course hdue hidle .refl (.error e)
    rw [← hworld] at hcourse ⊢
    exact h.course _ _ hrendered (hcourse.mono (one_within key))
  · rw [ht] at hfaults ⊢
    exact h.mail _ key now handover t hrendered (hworld ▸ hdue) hfaults

/-- Running the step of a cursor in its version maintains a fact that lasts. -/
theorem execute (h : Lasting svc allowed I) {s : Session σ} (hs : I s)
    (hg : s.world.flows.find? key.flowId = some g)
    (hfaults : ∀ x, ((Engine.execute svc g key trigger now).on s).1 = .error x → allowed x) :
    I ((Engine.execute svc g key trigger now).on s).2 := by
  cases hc : s.world.cursors.find? key with
  | none =>
    unfold Engine.execute
    rw [on_bind_error (on_cursor_none hc)]
    exact hs
  | some c =>
    obtain rfl := CursorStore.key_eq_of_find? hc
    cases hr : c.state.terminal with
    | true =>
      unfold Engine.execute
      rw [on_bind_ok (on_cursor_some hc), if_pos hr]
      exact hs
    | false =>
      cases hn : g.node? c.nodeId with
      | none =>
        unfold Engine.execute
        rw [on_bind_ok (on_cursor_some hc), if_neg (by rw [hr]; nofun), hn, on_lift]
        have hcourse : s.world.Course svc.retry (.one c.key)
            ((Change.fail c.key ("node " ++ c.nodeId ++ " not in flow version") now).on s.world).2 :=
          Change.fail_course hc
        exact h.course s _ hs (hcourse.mono (one_within c.key))
      | some node =>
        have hat : c.At s.world.flows g node := ⟨hg, hn⟩
        rw [on_execute hc hr hn, ignoreClash_perform, on_bind, on_lift] at hfaults ⊢
        have hcourse : s.world.Course svc.retry (.one c.key)
            ((Change.openStep g c node trigger now).on s.world).2 :=
          Change.openStep_course hc hat
        have hopened := h.course s _ hs (hcourse.mono (one_within c.key))
        rcases hon : (Change.openStep g c node trigger now).on s.world with
          ⟨x | o | handover, v⟩ <;> rw [hon] at hopened hfaults
        · exact hopened
        · exact hopened
        · obtain ⟨rfl, rfl, rfl, rfl, hmails, hsend⟩ := Change.openStep_sends hon
          exact h.goOn hs ⟨hc, hat, hmails, hsend⟩ hfaults

theorem dispatchOnce (h : Lasting svc allowed I) (key : CursorKey) (trigger : Trigger)
    (now : Instant) : (dispatchOnce svc key trigger now).Maintains I allowed := by
  refine (h.idle (cursor_follows key)).bind fun c => ?_
  intro s hs
  rw [on_bind_ok (on_world s)]
  split
  · exact fun _ => hs
  · split
    · have hcancel : (Change.cancel key "campaign halted" now).Follows svc.retry .idle :=
        Change.cancel_follows key _ now
      exact ((h.idle hcancel).discard.bind fun _ => .pure _) s hs
    · cases hg : s.world.flows.find? key.flowId with
      | none => exact fun _ => hs
      | some g => exact h.execute hs hg

/-! ## Dispatch -/

theorem dispatchSteps (h : Lasting svc allowed I) (key : CursorKey) (now : Instant) (n : Nat)
    (trigger : Trigger) : (dispatchSteps svc key now n trigger).Maintains I allowed := by
  induction n generalizing trigger with
  | zero => exact .pure _
  | succ n ih =>
    refine (h.dispatchOnce key trigger now).bind fun outcome => ?_
    cases outcome with
    | moved => exact ih .enter
    | _ => exact .pure _

theorem dispatch (h : Lasting svc allowed I) (key : CursorKey) (trigger : Trigger)
    (now : Instant) : (dispatch svc key trigger now).Maintains I allowed :=
  .world fun _ => h.dispatchSteps key now _ trigger

theorem dispatchEach (h : Lasting svc allowed I) (trigger : Trigger) (now : Instant)
    (keys : List CursorKey) : (dispatchEach svc trigger now keys).Maintains I allowed := by
  induction keys with
  | nil => exact .pure _
  | cons key rest ih =>
    exact ((h.dispatch key trigger now).kept h.otherFaults).bind fun _ => ih.bind fun _ => .pure _

/-! ## Operations -/

theorem enroll (h : Lasting svc allowed I) (campaign : Uuid) (lead : Lead) (now : Instant) :
    (enroll svc campaign lead now).Maintains I allowed :=
  (h.lift (addLead_follows campaign lead now) Scope.all.within_mailing).bind fun key =>
    (h.dispatch key .enter now).discard.bind fun _ => h.idle (cursor_follows key)

theorem routeTo (h : Lasting svc allowed I) (e : Engagement) (now : Instant)
    (keys : List CursorKey) : (routeTo svc e now keys).Maintains I allowed := by
  induction keys with
  | nil => exact .pure _
  | cons key rest ih =>
    exact (h.dispatch key (.event e) now).bind fun _ => ih.bind fun _ => .pure _

theorem route (h : Lasting svc allowed I) (e : Engagement) (now : Instant) :
    (route svc e now).Maintains I allowed := by
  refine .world fun w => ?_
  split
  · exact .pure _
  · exact (h.routeTo e now _).bind fun _ => .pure _

theorem ingest (h : Lasting svc allowed I) (e : Engagement) (now : Instant) :
    (ingest svc e now).Maintains I allowed := by
  have hcount : (Change.apply (·.count e none now)).Follows svc.retry .idle :=
    .apply fun w => World.count_course w e none now
  unfold Engine.ingest
  split
  · exact h.idle (Change.ingestHalting_follows e now)
  · refine (h.idle (Change.receive_follows e now)).bind fun first => ?_
    cases first with
    | false => exact .pure _
    | true =>
      exact (h.idle hcount).bind fun _ => (h.route e now).bind fun _ =>
        (h.idle (Change.settle_follows e.key)).bind fun _ => .pure _

theorem recover (h : Lasting svc allowed I) (now : Instant) :
    (recover svc now).Maintains I allowed :=
  .world fun _ => (h.dispatchEach .enter now _).discard.bind fun _ => .pure _

theorem tick (h : Lasting svc allowed I) (batchSize : UInt64) (now : Instant) :
    (tick svc batchSize now).Maintains I allowed :=
  .world fun _ => (h.dispatchEach .timer now _).map _

end Lasting

end Engine

end MailCampaign
