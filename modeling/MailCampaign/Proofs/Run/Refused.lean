import MailCampaign.Proofs.Engine.Registry
import MailCampaign.Proofs.Flow.Versions
import MailCampaign.Proofs.Run.Basic

/-!
# Refused operations

An operation of control is refused for what the world is before it: the document breaks a rule, the
campaign is halted, unknown or without an active flow, or the lead is in the active version already
(`Operation.refusal?`). All of this is looked at before anything is written.

1. A refused operation reports its refusal and leaves the session as it was (`Operation.perform_refused`).
2. One that is not refused goes through, unless a time leaves its range while the first steps of an
   enrolled lead are run (`Operation.perform_allowed`): the cursor that was added is stored and its
   version is known, so its dispatch has no other fault.
-/

namespace MailCampaign

variable {σ : Type}

/-! ## Refusals -/

namespace World

variable (w : World) (campaign : Uuid)

/-- Why a campaign takes no new version. -/
def activationRefusal? (document : Document) : Option Fault :=
  if w.status campaign = .canceled then some (.halted (.activation campaign))
  else match document.validate with
    | .error v => some (.invalidFlow v)
    | .ok _ => none

/-- Why a campaign does not take a lead. -/
def enrollmentRefusal? (leadId : String) : Option Fault :=
  if (w.status campaign).halts then some (.halted (.enrollment campaign))
  else match w.flows.active? campaign with
    | none => some (.missing (.activeFlow campaign))
    | some g =>
      if (w.cursors.find? ⟨g.id, leadId⟩).isSome then some (.clash (.enrolled ⟨g.id, leadId⟩))
      else none

/-- Why a campaign is not canceled. -/
def cancellationRefusal? : Option Fault :=
  if w.campaigns.contains campaign then none else some (.missing (.campaign campaign))

/-- Why a campaign is neither paused nor opened again. -/
def switchRefusal? : Option Fault :=
  if w.campaigns.contains campaign then
    if w.status campaign = .canceled then some (.clash (.canceled campaign)) else none
  else some (.missing (.campaign campaign))

end World

namespace Operation

/-- The operations that activate flows, enroll leads and stop or resume campaigns. -/
def Controls : Operation → Prop
  | activate _ _ _ | enroll _ _ _ | pause _ _ | cancel _ _ | resume _ => True
  | _ => False

/-- Why a world refuses an operation of control. -/
def refusal? (w : World) : Operation → Option Fault
  | activate campaign document _ => w.activationRefusal? campaign document
  | enroll campaign lead _ => w.enrollmentRefusal? campaign lead.id
  | pause campaign _ | resume campaign => w.switchRefusal? campaign
  | cancel campaign _ => w.cancellationRefusal? campaign
  | _ => none

end Operation

/-! ## Campaigns -/

namespace Change

variable {campaign : Uuid} {document : Document} {now : Instant} {w : World} {f : Fault}

theorem activate_refused (h : w.activationRefusal? campaign document = some f) :
    (activate campaign document now).on w = (.error f, w) := by
  unfold World.activationRefusal? at h
  split at h
  · next hcanceled =>
    cases h
    exact activate_canceled hcanceled document now
  · next hstatus =>
    split at h
    · next v hv =>
      cases h
      unfold activate
      rw [on_bind_ok (on_get w), if_neg hstatus, FlowStore.activate_eq_error_iff.2 hv]
      rfl
    · cases h

theorem activate_allowed (h : w.activationRefusal? campaign document = none) (now : Instant) :
    ∃ g v, (activate campaign document now).on w = (.ok g, v) := by
  unfold World.activationRefusal? at h
  split at h
  · cases h
  · next hstatus =>
    split at h
    · cases h
    · next entry hentry =>
      unfold activate
      rw [on_bind_ok (on_get w), if_neg hstatus]
      cases ha : w.flows.activate (Uuid.ofNat w.nextId) campaign document now with
      | error v => exact nomatch hentry.symm.trans (FlowStore.activate_eq_error_iff.1 ha)
      | ok stored => exact ⟨_, _, rfl⟩

theorem cancelCampaign_refused (h : w.cancellationRefusal? campaign = some f) :
    (cancelCampaign campaign now).on w = (.error f, w) := by
  unfold World.cancellationRefusal? at h
  split at h
  · cases h
  · next hunknown =>
    cases h
    have hreq := on_requireCampaign campaign w
    rw [if_neg hunknown] at hreq
    exact on_bind_error hreq

theorem cancelCampaign_allowed (h : w.cancellationRefusal? campaign = none) (now : Instant) :
    ∃ n v, (cancelCampaign campaign now).on w = (.ok n, v) := by
  unfold World.cancellationRefusal? at h
  split at h
  · next hknown =>
    have hreq := on_requireCampaign campaign w
    rw [if_pos hknown] at hreq
    obtain ⟨n, v, hon, -⟩ := cancelRunning_on Services.plain.retry .idle campaign
      "campaign canceled" now (w.setStatus campaign .canceled)
    exact ⟨n, v, (on_bind_ok hreq).trans hon⟩
  · cases h

/-- A campaign that is unknown or canceled is neither paused nor opened again. -/
theorem switch_refused (h : w.switchRefusal? campaign = some f) (now : Instant) :
    (pause campaign now).on w = (.error f, w) ∧ (resume campaign).on w = (.error f, w) := by
  unfold World.switchRefusal? at h
  split at h
  · split at h
    · next hcanceled =>
      cases h
      exact ⟨pause_canceled hcanceled now, resume_canceled hcanceled⟩
    · cases h
  · next hunknown =>
    cases h
    have hreq := on_requireCampaign campaign w
    rw [if_neg hunknown] at hreq
    exact ⟨on_bind_error hreq, on_bind_error hreq⟩

theorem switch_allowed (h : w.switchRefusal? campaign = none) (now : Instant) :
    (∃ n v, (pause campaign now).on w = (.ok n, v)) ∧
      ∃ v, (resume campaign).on w = (.ok ⟨⟩, v) := by
  unfold World.switchRefusal? at h
  split at h
  · next hknown =>
    split at h
    · cases h
    · next hstatus =>
      have hreq := on_requireCampaign campaign w
      rw [if_pos hknown] at hreq
      obtain ⟨n, v, hon, -⟩ := cancelRunning_on Services.plain.retry .idle campaign
        "campaign paused" now (w.setStatus campaign .paused)
      refine ⟨⟨n, v, ?_⟩, ?_⟩
      · unfold pause
        rw [on_bind_ok hreq, on_bind_ok (on_get w), if_neg hstatus]
        exact hon
      · unfold resume
        rw [on_bind_ok hreq, on_bind_ok (on_get w)]
        cases hs : w.status campaign with
        | active => exact ⟨_, rfl⟩
        | paused => exact ⟨_, rfl⟩
        | canceled => exact absurd hs hstatus
  · cases h

end Change

/-! ## Leads -/

namespace Engine

variable {svc : Services σ} {campaign : Uuid} {lead : Lead} {now : Instant} {w : World} {f x : Fault}
  {s : Session σ}

theorem addLead_refused (h : w.enrollmentRefusal? campaign lead.id = some f) :
    (addLead campaign lead now).on w = (.error f, w) := by
  unfold World.enrollmentRefusal? at h
  unfold addLead
  rw [Change.on_bind_ok (Change.on_get w)]
  split at h
  · next hhalts =>
    cases h
    rw [if_pos hhalts]
    rfl
  · next hhalts =>
    rw [if_neg hhalts]
    split at h
    · next hnone =>
      cases h
      rw [hnone]
      rfl
    · next g hactive =>
      split at h
      · next hsome =>
        cases h
        obtain ⟨c, hc⟩ := Option.isSome_iff_exists.1 hsome
        have hinsert : w.cursors.insert (newCursor (Uuid.ofNat w.nextId) g campaign lead.id now) =
            .error (.clash (.enrolled ⟨g.id, lead.id⟩)) := by
          unfold CursorStore.insert
          rw [show (newCursor (Uuid.ofNat w.nextId) g campaign lead.id now).key = ⟨g.id, lead.id⟩
            from rfl, hc]
        rw [hactive, Change.on_bind_ok (Change.on_need_some _ g w)]
        dsimp only
        rw [hinsert]
        rfl
      · cases h

/-- A lead that is not refused has a cursor in a known version then. -/
theorem addLead_allowed (h : w.enrollmentRefusal? campaign lead.id = none) (now : Instant) :
    ∃ key v, (addLead campaign lead now).on w = (.ok key, v) ∧ Served v key := by
  have hok : ∃ key v, (addLead campaign lead now).on w = (.ok key, v) := by
    unfold World.enrollmentRefusal? at h
    unfold addLead
    rw [Change.on_bind_ok (Change.on_get w)]
    split at h
    · cases h
    · next hhalts =>
      rw [if_neg hhalts]
      split at h
      · cases h
      · next g hactive =>
        split at h
        · cases h
        · next hnone =>
          rw [hactive, Change.on_bind_ok (Change.on_need_some _ g w)]
          dsimp only
          rw [CursorStore.insert_eq_ok_iff.2 ⟨Option.not_isSome_iff_eq_none.1 hnone, rfl⟩]
          exact ⟨_, _, rfl⟩
  obtain ⟨key, v, hon⟩ := hok
  rcases addLead_on Services.plain.retry campaign lead now w with
    ⟨x, -, herror⟩ | ⟨key', c, g, v', hadded, -, hc, hg, -⟩
  · rw [hon] at herror
    cases herror
  · cases hon.symm.trans hadded
    exact ⟨key, v, hon, ⟨c, hc⟩, g, hg⟩

/-- An enrollment that is not refused fails only when a time is out of range. -/
theorem enroll_allowed (h : s.world.enrollmentRefusal? campaign lead.id = none)
    (hx : ((enroll svc campaign lead now).on s).1 = .error x) : x = .outOfRange := by
  obtain ⟨key, v, hadd, hserved⟩ := addLead_allowed h now
  have hlift : (liftM (addLead campaign lead now) : Engine σ CursorKey).on s =
      (.ok key, { s with world := v }) := by
    rw [on_lift, hadd]
  unfold enroll at hx
  rw [on_bind_ok hlift, on_bind, on_discard] at hx
  have hfollows : Session.Trail svc (.one key) { s with world := v }
      ((dispatch svc key .enter now).on { s with world := v }).2 := dispatch_follows key .enter now _
  rcases hone : (dispatch svc key .enter now).on { s with world := v } with ⟨y | o, u⟩ <;>
    rw [hone] at hx hfollows
  · obtain rfl : y = x := Except.error.inj hx
    exact dispatch_fault (s := { s with world := v }) hserved (by rw [hone])
  · -- The cursor is still stored after its dispatch.
    obtain ⟨⟨c, hc⟩, -⟩ := hserved.trail hfollows
    have hcursor : (liftM (Change.cursor key) : Engine σ Cursor).on u = (.ok c, u) := by
      rw [on_lift, Change.on_cursor_some hc]
    exact absurd ((congrArg Prod.fst hcursor).symm.trans hx) nofun

end Engine

/-! ## Operations -/

namespace Operation

variable {svc : Services σ} {op : Operation} {s : Session σ} {f x : Fault}

theorem on_discard_of_error {α : Type} {e : Engine σ α} (h : e.on s = (.error f, s)) :
    (discard e).on s = (.error f, s) := by
  rw [Engine.on_discard, h]
  rfl

theorem on_lift_of_error {α : Type} {c : Change α} (h : c.on s.world = (.error f, s.world)) :
    (liftM c : Engine σ α).on s = (.error f, s) := by
  rw [Engine.on_lift, h]

/-- A refused operation says why and leaves everything as it was. -/
theorem perform_refused (h : op.refusal? s.world = some f) :
    (op.perform svc).on s = (.error f, s) := by
  cases op with
  | activate campaign document now =>
    exact on_lift_of_error (Change.discard_error (Change.activate_refused h))
  | enroll campaign lead now =>
    have hadd : (liftM (Engine.addLead campaign lead now) : Engine σ CursorKey).on s =
        (.error f, s) := on_lift_of_error (Engine.addLead_refused h)
    exact on_discard_of_error (Engine.on_bind_error hadd)
  | pause campaign now => exact on_lift_of_error (Change.discard_error (Change.switch_refused h now).1)
  | cancel campaign now => exact on_lift_of_error (Change.discard_error (Change.cancelCampaign_refused h))
  | resume campaign => exact on_lift_of_error (Change.switch_refused h .epoch).2
  | _ => cases h

/-- An operation of control that is not refused fails only when a time is out of range. -/
theorem perform_allowed (hop : op.Controls) (h : op.refusal? s.world = none)
    (hx : ((op.perform svc).on s).1 = .error x) : x = .outOfRange := by
  cases op with
  | activate campaign document now =>
    obtain ⟨g, v, hon⟩ := Change.activate_allowed h now
    unfold perform at hx
    rw [Engine.on_lift, Change.on_discard, hon] at hx
    cases hx
  | enroll campaign lead now =>
    unfold perform at hx
    rw [Engine.on_discard] at hx
    rcases hr : (Engine.enroll svc campaign lead now).on s with ⟨y | c, t⟩ <;> rw [hr] at hx
    · obtain rfl : y = x := Except.error.inj hx
      exact Engine.enroll_allowed h (by rw [hr])
    · cases hx
  | pause campaign now =>
    obtain ⟨n, v, hon⟩ := (Change.switch_allowed h now).1
    unfold perform at hx
    rw [Engine.on_lift, Change.on_discard, hon] at hx
    cases hx
  | cancel campaign now =>
    obtain ⟨n, v, hon⟩ := Change.cancelCampaign_allowed h now
    unfold perform at hx
    rw [Engine.on_lift, Change.on_discard, hon] at hx
    cases hx
  | resume campaign =>
    obtain ⟨v, hon⟩ := (Change.switch_allowed h .epoch).2
    unfold perform at hx
    rw [Engine.on_lift, hon] at hx
    cases hx
  | _ => exact hop.elim

end Operation

/-- **Refused operations are atomic.** An operation of control reports a fault, other than a time out of
range, exactly when the world before it refuses it: an activation when its campaign is canceled or its
document breaks a rule, an enrollment when its campaign is halted or has no active flow or the lead is
in the active version already, a pause or a reopening when the campaign is unknown or canceled, and a
cancellation when it is unknown. Then nothing has changed: flows, cursors with their timers, leads,
campaigns, statistics, keys and the ids to be drawn are as before, nothing was let out, the mailer was
not called, and the disk with the journal is as before. -/
theorem Operation.refused_atomic (svc : Services σ) {op : Operation} (hop : op.Controls) {f : Fault}
    (hf : f ≠ .outOfRange) (s : Session σ) :
    (((op.perform svc).on s).1 = .error f ↔ op.refusal? s.world = some f) ∧
      (((op.perform svc).on s).1 = .error f → (op.perform svc).on s = (.error f, s) ∧
        ∀ h : Host σ, h.session = s → Host.perform (op.perform svc) h = (.error f, h)) := by
  have hrefused : ((op.perform svc).on s).1 = .error f → op.refusal? s.world = some f := by
    intro herror
    cases hr : op.refusal? s.world with
    | none => exact absurd (perform_allowed hop hr herror) hf
    | some f' =>
      rw [perform_refused hr] at herror
      exact congrArg some (Except.error.inj herror)
  refine ⟨⟨hrefused, fun hr => by rw [perform_refused hr]⟩, fun herror => ?_⟩
  have hr := hrefused herror
  refine ⟨perform_refused hr, ?_⟩
  rintro h rfl
  -- What an operation is refused for does not depend on what went out before.
  have hquiet : (op.perform svc).on
      { h.session with world := { h.session.world with trace := [] } } =
        (.error f, { h.session with world := { h.session.world with trace := [] } }) :=
    perform_refused (by cases op <;> exact hr)
  unfold Host.perform
  rw [hquiet]
  obtain ⟨session, disk, _ | ⟨path, handle⟩⟩ := h <;> rfl

/-- A lead that is enrolled again in the version it is in. -/
theorem Operation.refused_atomic_enrolled :
    (Operation.enroll (.ofNat 7) .ada .secondDay).Controls ∧
    Fault.clash (.enrolled ⟨.ofNat 0, "ada"⟩) ≠ .outOfRange ∧
    ((Operation.enroll (.ofNat 7) .ada .secondDay).perform (Services.plain.recording)).on
      Session.enrolled = (.error (.clash (.enrolled ⟨.ofNat 0, "ada"⟩)), Session.enrolled) := by
  have hcontrols : (Operation.enroll (.ofNat 7) .ada .secondDay).Controls := trivial
  have h := Operation.refused_atomic Services.plain.recording hcontrols
    (f := .clash (.enrolled ⟨.ofNat 0, "ada"⟩)) nofun Session.enrolled
  exact ⟨hcontrols, nofun, (h.2 (h.1.2 (by decide +kernel))).1⟩

end MailCampaign
