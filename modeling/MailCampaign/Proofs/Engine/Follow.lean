import MailCampaign.Proofs.Engine.Step

/-!
# Operations that follow trails

Every operation of the engine is put together from single steps of cursors and from changes of the
world that follow courses, so it takes a trail from every session. A dispatch takes turns with its own
cursor only, and an enrollment with the cursor that it adds.
-/

namespace MailCampaign

variable {σ : Type}

namespace FlowStore

/-- The active version of a campaign is stored. -/
theorem find?_of_active? {s : FlowStore} {campaign : Uuid} {g : Graph}
    (h : s.active? campaign = some g) : s.find? g.id = some g := by
  obtain ⟨id, -, hg⟩ := Option.bind_eq_some_iff.1 h
  rw [id_eq_of_find? hg]
  exact hg

end FlowStore

namespace Engine

variable {svc : Services σ}

/-! ## Dispatch -/

theorem dispatch_follows (key : CursorKey) (trigger : Trigger) (now : Instant) :
    (dispatch svc key trigger now).Follows svc (.one key) :=
  Keeps.dispatch (fun trigger => dispatchOnce_follows key trigger now) trigger

/-- Among the operations a dispatch is one of any cursor. -/
theorem dispatch_follows_all (trigger : Trigger) (now : Instant) (key : CursorKey) :
    (dispatch svc key trigger now).Follows svc .all :=
  (dispatch_follows key trigger now).mono (Scope.one_within_all key)

/-! ## Enrollment -/

/-- An enrollment is refused, or it adds a pending cursor of a known version under a new key. -/
theorem addLead_on (policy : RetryPolicy) (campaign : Uuid) (lead : Lead) (now : Instant)
    (w : World) :
    (∃ x, x ≠ .outOfRange ∧ (addLead campaign lead now).on w = (.error x, w)) ∨
      ∃ key c g v, (addLead campaign lead now).on w = (.ok key, v) ∧
        w.Course policy (.one key) v ∧ v.cursors.find? key = some c ∧
        v.flows.find? key.flowId = some g ∧ w.cursors.find? key = none := by
  unfold addLead
  rw [Change.on_bind_ok (Change.on_get w)]
  split
  · refine .inl ⟨.halted (.enrollment campaign), nofun, rfl⟩
  cases hg : w.flows.active? campaign with
  | none => exact .inl ⟨.missing (.activeFlow campaign), nofun, rfl⟩
  | some g =>
    have hstored := FlowStore.find?_of_active? hg
    rw [Change.on_bind_ok (Change.on_need_some _ g w)]
    dsimp only
    cases hf : w.cursors.find? ⟨g.id, lead.id⟩ with
    | some d =>
      have hins : w.cursors.insert (newCursor (Uuid.ofNat w.nextId) g campaign lead.id now) =
          .error (.clash (.enrolled ⟨g.id, lead.id⟩)) := by
        unfold CursorStore.insert
        rw [show (newCursor (Uuid.ofNat w.nextId) g campaign lead.id now).key =
          ⟨g.id, lead.id⟩ from rfl, hf]
      rw [hins]
      exact .inl ⟨.clash (.enrolled ⟨g.id, lead.id⟩), nofun, rfl⟩
    | none =>
      rw [CursorStore.insert_eq_ok_iff.2 ⟨hf, rfl⟩]
      refine .inr ⟨⟨g.id, lead.id⟩, newCursor (Uuid.ofNat w.nextId) g campaign lead.id now, g, _,
        rfl, ?_, ?_, hstored, hf⟩
      · refine Relation.ReflTransGen.trans (.single (.entered (Uuid.ofNat w.nextId) campaign now
          (w.nextId + 1) (w.leads.insert lead.id lead) rfl hstored hf)) (World.Booked.course ?_)
        exact (World.booked_emit _ (.lead lead)).trans
          ((World.booked_countEnrolled _ campaign).trans (World.booked_report _ _ _ _ _))
      · exact (w.cursors.find?_addNew _ _).trans (if_pos rfl)

theorem addLead_follows {policy : RetryPolicy} (campaign : Uuid) (lead : Lead) (now : Instant) :
    (addLead campaign lead now).Follows policy .all := by
  intro w
  rcases addLead_on policy campaign lead now w with ⟨x, -, h⟩ | ⟨key, c, g, v, h, hv, -⟩
    <;> rw [h]
  exact hv.mono (Scope.one_within_all key)

theorem cursor_follows {policy : RetryPolicy} {scope : Scope} (key : CursorKey) :
    (Change.cursor key).Follows policy scope := fun w => by
  rw [Change.on_cursor]
  exact Change.Follows.need _ _ w

theorem enroll_follows (campaign : Uuid) (lead : Lead) (now : Instant) :
    (enroll svc campaign lead now).Follows svc .all :=
  Keeps.enroll (Follows.lift (addLead_follows campaign lead now)) (dispatch_follows_all .enter now)
    fun key => Follows.lift (cursor_follows key)

/-! ## Events and timers -/

theorem routeTo_follows (e : Engagement) (now : Instant) (keys : List CursorKey) :
    (routeTo svc e now keys).Follows svc .all :=
  Keeps.routeTo (dispatch_follows_all (.event e) now) keys

theorem route_follows (e : Engagement) (now : Instant) : (route svc e now).Follows svc .all :=
  Keeps.route (dispatch_follows_all (.event e) now)

theorem ingest_follows (e : Engagement) (now : Instant) : (ingest svc e now).Follows svc .all := by
  have hcount : (Change.apply (·.count e none now)).Follows svc.retry .all :=
    .apply fun w => World.count_course w e none now
  exact Keeps.ingest (Follows.lift (Change.ingestHalting_follows e now))
    (Follows.lift (Change.receive_follows e now)) (Follows.lift hcount)
    (Follows.lift (Change.settle_follows e.key)) (dispatch_follows_all (.event e) now)

theorem recover_follows (now : Instant) : (recover svc now).Follows svc .all :=
  Keeps.recover (dispatch_follows_all .enter now)

theorem tick_follows (batchSize : UInt64) (now : Instant) :
    (tick svc batchSize now).Follows svc .all :=
  Keeps.tick (dispatch_follows_all .timer now) batchSize

end Engine

end MailCampaign
