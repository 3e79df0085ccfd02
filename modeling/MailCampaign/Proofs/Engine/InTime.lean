import MailCampaign.Proofs.Engine.Follow
import MailCampaign.Proofs.World.InTime

/-!
# Operations that stay in the range of time

In a world in which all flows have bounded waiting times, and under a retry policy with bounded
delays, no operation of the engine comes upon a time out of range at an instant up to the end of the
year 2200, whatever the mailer and the renderer answer. For a cursor runs the steps of a flow of the
world alone, and what happens while a mail is sent is made of changes that keep all flows.
-/

namespace MailCampaign.Engine

variable {σ α β : Type}

/-- An operation that comes upon no time out of range in a bounded world, and leaves it bounded. -/
def InTime (e : Engine σ α) : Prop :=
  ∀ s : Session σ, s.world.Bounded → (e.on s).1 ≠ .error .outOfRange ∧ (e.on s).2.world.Bounded

namespace InTime

theorem pure (a : α) : (pure a : Engine σ α).InTime := fun _ hs => ⟨nofun, hs⟩

theorem throw {x : Fault} (hx : x ≠ .outOfRange) : (throw x : Engine σ α).InTime :=
  fun _ hs => ⟨fun h => hx (Except.error.inj h), hs⟩

theorem lift {c : Change α} (hc : c.InTime) : (liftM c : Engine σ α).InTime :=
  fun s hs => hc s.world hs

theorem bind {e : Engine σ α} {f : α → Engine σ β} (he : e.InTime) (hf : ∀ a, (f a).InTime) :
    (e >>= f).InTime := by
  intro s hs
  have hes := he s hs
  rw [on_bind]
  rcases hr : e.on s with ⟨x | a, t⟩ <;> rw [hr] at hes
  · exact ⟨fun h => hes.1 (by rw [Except.error.inj h]), hes.2⟩
  · exact hf a t hes.2

theorem map {e : Engine σ α} (f : α → β) (he : e.InTime) : (f <$> e).InTime := by
  rw [map_eq_pure_bind]
  exact he.bind fun a => pure (f a)

theorem discard {e : Engine σ α} (he : e.InTime) : (discard e).InTime := he.map _

/-- An operation that looks at the world first. -/
theorem world {f : World → Engine σ α}
    (hf : ∀ s : Session σ, s.world.Bounded →
      ((f s.world).on s).1 ≠ .error .outOfRange ∧ ((f s.world).on s).2.world.Bounded) :
    (Engine.world >>= f).InTime := by
  intro s hs
  rw [on_bind_ok (on_world s)]
  exact hf s hs

/-- A clash that goes unnoticed is not a time out of range. -/
theorem ignoreClash {e : Engine σ Outcome} (he : e.InTime) : (ignoreClash e).InTime := by
  intro s hs
  have hes := he s hs
  unfold Engine.ignoreClash
  rw [on_tryCatch]
  rcases hr : e.on s with ⟨x | a, t⟩ <;> rw [hr] at hes
  · cases x with
    | clash => exact ⟨nofun, hes.2⟩
    | _ => exact hes
  · exact hes

theorem kept {e : Engine σ α} (he : e.InTime) : (kept e).InTime := by
  intro s hs
  have hes := he s hs
  rw [on_kept]
  rcases hr : e.on s with ⟨x | a, t⟩ <;> rw [hr] at hes
  · cases x with
    | outOfRange => exact absurd rfl hes.1
    | _ => exact ⟨nofun, hes.2⟩
  · exact ⟨nofun, hes.2⟩

end InTime

variable {svc : Services σ} {g : Graph} {c : Cursor} {node : Node} {key : CursorKey}
  {trigger : Trigger} {now : Instant}

/-! ## Running a step -/

theorem interruption_inTime (lead : Lead) (i : Interruption) :
    (interruption lead now i).InTime := by
  cases i with
  | pause campaign => exact Change.pause_inTime.discard
  | cancel campaign => exact Change.cancelCampaign_inTime.discard
  | unsubscribe campaign key => exact Change.ingestHalting_inTime.discard
  | unsubscribeOther leadId campaign key => exact Change.ingestHalting_inTime.discard

theorem render_inTime (typesetter : Typesetter σ) (mail : Mail) (lead : Lead) :
    (render typesetter mail lead).InTime := by
  intro s hs
  obtain ⟨result, hon⟩ := on_render typesetter mail lead s
  rw [hon]
  exact ⟨nofun, (world_render typesetter mail lead s).symm ▸ hs⟩

/-- Whatever happens while a mail is sent leaves the world bounded. -/
theorem deliver_inTime (mailer : Mailer σ) (lead : Lead) (mail : Template) :
    (deliver mailer key lead mail now).InTime := by
  have hmeanwhile : ∀ (l : List Interruption) (s : Session σ), s.world.Bounded →
      (l.foldl (disturbed mailer lead now) s).world.Bounded := by
    intro l
    induction l with
    | nil => exact fun s hs => hs
    | cons i rest ih =>
      exact fun s hs => ih (disturbed mailer lead now s i) (interruption_inTime lead i s.world hs).2
  exact fun s hs => ⟨nofun, hmeanwhile _ _ hs⟩

theorem sendMail_inTime (hretry : svc.retry.Bounded) (hnow : now.Near) {mail : Mail} :
    (sendMail svc g c node mail now).InTime := by
  refine .world fun s hs => ?_
  cases s.world.leads.find? c.leadId with
  | none => exact InTime.lift Change.fail_inTime s hs
  | some lead =>
    have hattempt : (attempt svc c.key mail lead now).InTime := by
      refine (render_inTime svc.renderer mail lead).bind fun result => ?_
      cases result with
      | ok t => exact deliver_inTime _ _ t
      | error e => exact .pure _
    exact hattempt.bind (fun result => .lift (Change.settleMail_inTime hretry hnow result)) s hs

theorem perform_inTime (hretry : svc.retry.Bounded) (hnow : now.Near)
    (hwait : ∀ w ∈ node.action.wait?, w.Bounded) : (perform svc g c node trigger now).InTime := by
  have hguard : ∀ {p : Prop} [Decidable p] {e : Engine σ Outcome}, e.InTime →
      (if p then e else return .ignored : Engine σ Outcome).InTime := by
    intro p _ e h
    split
    · exact h
    · exact .pure _
  unfold perform
  split
  · exact hguard (sendMail_inTime hretry hnow)
  · exact hguard (sendMail_inTime hretry hnow)
  · next wait ha =>
    exact hguard (.lift (Change.scheduleDelay_inTime (hwait wait (by rw [ha]; rfl)) hnow))
  · exact hguard (.lift Change.advance_inTime)
  · next k ha =>
    exact hguard (.lift (Change.enterCondition_inTime (hwait k.wait (by rw [ha]; rfl)) hnow))
  · exact hguard (.lift Change.resolve_inTime)
  · exact hguard (.lift Change.observe_inTime)
  · exact hguard (.lift Change.reachGoal_inTime)
  · exact .pure _

theorem execute_inTime (hretry : svc.retry.Bounded) (hnow : now.Near)
    (hg : g.definition.document.Bounded) : (execute svc g key trigger now).InTime := by
  refine (InTime.lift (.cursor key)).bind fun c => ?_
  split
  · exact .pure _
  · split
    · exact .lift Change.fail_inTime
    · next node hn =>
      exact (perform_inTime hretry hnow (hg node (Document.mem_of_node? hn))).ignoreClash

/-! ## Dispatch -/

theorem dispatchOnce_inTime (hretry : svc.retry.Bounded) (hnow : now.Near) :
    (dispatchOnce svc key trigger now).InTime := by
  refine (InTime.lift (.cursor key)).bind fun c => .world fun s hs => ?_
  split
  · exact ⟨nofun, hs⟩
  split
  · exact (InTime.lift Change.cancel_inTime).discard.bind (fun _ => .pure _) s hs
  · cases hg : s.world.flows.find? key.flowId with
    | none => exact ⟨nofun, hs⟩
    | some g => exact execute_inTime hretry hnow (hs _ g hg) s hs

theorem dispatch_inTime (hretry : svc.retry.Bounded) (hnow : now.Near) (key : CursorKey)
    (trigger : Trigger) : (dispatch svc key trigger now).InTime := by
  have hsteps : ∀ n trigger, (dispatchSteps svc key now n trigger).InTime := by
    intro n
    induction n with
    | zero => exact fun _ => .pure _
    | succ n ih =>
      refine fun trigger => (dispatchOnce_inTime hretry hnow).bind fun outcome => ?_
      cases outcome with
      | moved => exact ih .enter
      | _ => exact .pure _
  exact .world fun s hs => hsteps _ trigger s hs

theorem dispatchEach_inTime (hretry : svc.retry.Bounded) (hnow : now.Near)
    (keys : List CursorKey) : (dispatchEach svc trigger now keys).InTime := by
  induction keys with
  | nil => exact .pure _
  | cons key rest ih =>
    exact (dispatch_inTime hretry hnow key trigger).kept.bind fun _ => ih.bind fun _ => .pure _

/-- Nothing but a time out of range comes through. -/
theorem kept_error {e : Engine σ α} {s : Session σ} {x : Fault}
    (h : ((kept e).on s).1 = .error x) : x = .outOfRange := by
  rw [on_kept] at h
  rcases he : e.on s with ⟨y | a, t⟩ <;> rw [he] at h
  · cases y with
    | outOfRange => exact (Except.error.inj h).symm
    | _ => cases h
  · cases h

theorem dispatchEach_error {keys : List CursorKey} {s : Session σ} {x : Fault}
    (h : ((dispatchEach svc trigger now keys).on s).1 = .error x) : x = .outOfRange := by
  induction keys generalizing s with
  | nil => cases h
  | cons key rest ih =>
    rw [dispatchEach, on_bind] at h
    rcases hone : (kept (dispatch svc key trigger now)).on s with ⟨y | outcome, t⟩ <;>
      rw [hone] at h
    · obtain rfl := Except.error.inj h
      exact kept_error (by rw [hone])
    · dsimp only at h
      rw [on_bind] at h
      rcases hrest : (dispatchEach svc trigger now rest).on t with ⟨y | others, u⟩ <;>
        rw [hrest] at h
      · obtain rfl := Except.error.inj h
        exact ih (by rw [hrest])
      · cases h

/-! ## Operations -/

theorem addLead_inTime {campaign : Uuid} {lead : Lead} : (addLead campaign lead now).InTime := by
  refine .get fun w hw => ?_
  by_cases hs : (w.status campaign).halts = true
  · rw [if_pos hs]
    exact ⟨nofun, hw⟩
  rw [if_neg hs]
  cases w.flows.active? campaign with
  | none => exact ⟨nofun, hw⟩
  | some g =>
    rw [Change.on_bind_ok (Change.on_need_some _ g w)]
    dsimp only
    cases hi : w.cursors.insert (newCursor (Uuid.ofNat w.nextId) g campaign lead.id now) with
    | error x =>
      obtain rfl : x = .clash (.enrolled ⟨g.id, lead.id⟩) := by
        unfold CursorStore.insert at hi
        split at hi
        · exact (Except.error.inj hi).symm
        · cases hi
      exact ⟨nofun, hw⟩
    | ok cursors => exact ⟨nofun, hw⟩

theorem enroll_inTime (hretry : svc.retry.Bounded) (hnow : now.Near) {campaign : Uuid}
    {lead : Lead} : (enroll svc campaign lead now).InTime :=
  (InTime.lift addLead_inTime).bind fun key =>
    (dispatch_inTime hretry hnow key .enter).discard.bind fun _ => .lift (.cursor key)

theorem ingest_inTime (hretry : svc.retry.Bounded) (hnow : now.Near) {e : Engagement} :
    (ingest svc e now).InTime := by
  have hrouteTo : ∀ keys, (routeTo svc e now keys).InTime := by
    intro keys
    induction keys with
    | nil => exact .pure _
    | cons key rest ih =>
      exact (dispatch_inTime hretry hnow key (.event e)).bind fun _ => ih.bind fun _ => .pure _
  have hroute : (route svc e now).InTime := by
    refine .world fun s hs => ?_
    split
    · exact ⟨nofun, hs⟩
    · exact (hrouteTo _).bind (fun _ => .pure _) s hs
  unfold ingest
  split
  · exact .lift Change.ingestHalting_inTime
  · refine (InTime.lift Change.receive_inTime).bind fun first => ?_
    cases first with
    | false => exact .pure _
    | true =>
      exact (InTime.lift Change.count_inTime).bind fun _ => hroute.bind fun _ =>
        (InTime.lift Change.settle_inTime).bind fun _ => .pure _

theorem recover_inTime (hretry : svc.retry.Bounded) (hnow : now.Near) : (recover svc now).InTime :=
  .world fun s hs => (dispatchEach_inTime hretry hnow _).discard.bind (fun _ => .pure _) s hs

theorem tick_inTime (hretry : svc.retry.Bounded) (hnow : now.Near) (batchSize : UInt64) :
    (tick svc batchSize now).InTime :=
  .world fun s hs => (dispatchEach_inTime hretry hnow _).map _ s hs

end MailCampaign.Engine
