import MailCampaign.Proofs.Engine.Fired
import MailCampaign.Proofs.Engine.Ingest
import MailCampaign.Proofs.World.Touched

/-!
# What stays beside a dispatch

With a mailer that lets nothing happen while it is at work:

1. A round changes its cursor and the totals of its campaign at most, with its mail or without
   (`dispatchOnce_confined`), and so does a dispatch.
2. An event that is routed is dispatched for cursors that waited at conditions as it came, one after
   another, and so it touches no more than it may (`route_touched`).
-/

namespace MailCampaign

variable {σ : Type}

open World Session

theorem Change.handle_confined {g : Graph} {c : Cursor} {node : Node} {trigger : Trigger}
    {now : Instant} : (Change.handle g c node trigger now).Keeps (Confined c.key c.campaignId) :=
  .handle (fun _ => scheduleDelay_confined) advance_confined (fun _ => enterCondition_confined)
    (fun _ => resolve_confined) (fun _ _ => observe_confined) reachGoal_confined

namespace Engine

variable {svc : Services σ} {key : CursorKey} {trigger : Trigger} {now : Instant} {g : Graph}
  {c : Cursor} {node : Node} {campaign : Uuid} {e : Engagement} {w : World} {s : Session σ}
  {keys : List CursorKey}

/-! ## Dispatches -/

/-- A mail changes nothing but what went out. -/
theorem attempt_confined (hq : svc.mailer.Quiet) {mail : Mail} {lead : Lead} :
    (attempt svc key mail lead now).Keeps (Worlds (Confined key campaign)) := by
  refine .attempt (worlds_render _ _ _) fun t s => ?_
  rw [on_deliver hq]
  exact .of_beside ⟨rfl, rfl, rfl, fun _ _ => rfl, fun _ _ => rfl⟩ rfl

theorem sendMail_confined (hq : svc.mailer.Quiet) {mail : Mail} :
    (sendMail svc g c node mail now).Keeps (Worlds (Confined c.key c.campaignId)) := by
  refine .world fun w => ?_
  split
  · exact worlds_lift Change.fail_confined
  · exact (attempt_confined hq).bind fun _ => worlds_lift Change.settleMail_confined

theorem perform_confined (hq : svc.mailer.Quiet) :
    (perform svc g c node trigger now).Keeps (Worlds (Confined c.key c.campaignId)) := by
  rw [perform_eq]
  split
  · exact sendMail_confined hq
  · exact worlds_lift Change.handle_confined

theorem execute_confined (hq : svc.mailer.Quiet) :
    (execute svc g key trigger now).Keeps (Worlds (Confined key campaign)) := by
  intro s c hc hcampaign
  obtain rfl := CursorStore.key_eq_of_find? hc
  subst hcampaign
  unfold execute
  rw [on_bind_ok (on_cursor_some hc)]
  have hsteps : ∀ {d : Engine σ Outcome}, d.Keeps (Worlds (Confined c.key c.campaignId)) →
      s.world.Beside c.key c.campaignId (d.on s).2.world ∧
        ∃ d', (d.on s).2.world.cursors.find? c.key = some d' ∧ c.SameLead d' :=
    fun h => h s c hc rfl
  split
  · exact hsteps (.pure _)
  · split
    · exact hsteps (worlds_lift Change.fail_confined)
    · refine hsteps (Keeps.tryCatch (perform_confined hq) fun x => ?_)
      cases x with
      | clash => exact .pure _
      | _ => exact .throw _

/-- A round changes its cursor and the totals of its campaign at most. -/
theorem dispatchOnce_confined (hq : svc.mailer.Quiet) :
    (dispatchOnce svc key trigger now).Keeps (Worlds (Confined key campaign)) := by
  refine (worlds_lift (.cursor key)).bind fun c => .world fun w => ?_
  split
  · exact .pure _
  · split
    · exact (worlds_lift Change.cancel_confined).discard.bind fun _ => .pure _
    · exact (worlds_lift (.need _ _)).bind fun g => execute_confined hq

theorem dispatch_confined (hq : svc.mailer.Quiet) :
    (dispatch svc key trigger now).Keeps (Worlds (Confined key campaign)) :=
  .dispatch (fun _ => dispatchOnce_confined hq) trigger

/-! ## Events -/

/-- A cursor of the lead of an event waits at a condition of its campaign. -/
def Awaits (e : Engagement) (w : World) (key : CursorKey) : Prop :=
  ∃ c, w.cursors.find? key = some c ∧ c.leadId = e.leadId ∧ c.campaignId = e.campaignId ∧
    c.state = .waitingCondition

theorem routeTo_touched (hq : svc.mailer.Quiet) (hkeys : ∀ key ∈ keys, Awaits e w key)
    (hs : w.Touched e s.world) : w.Touched e ((routeTo svc e now keys).on s).2.world := by
  induction keys generalizing s with
  | nil => exact hs
  | cons key rest ih =>
    obtain ⟨c, hc, hlead, hcampaign, hwaits⟩ := hkeys key List.mem_cons_self
    have hconfined : s.world.Confined key e.campaignId
        ((dispatch svc key (.event e) now).on s).2.world := dispatch_confined hq s
    have hone := hs.step hc hlead hcampaign hwaits hconfined
    unfold routeTo
    rw [on_bind]
    rcases hon : (dispatch svc key (.event e) now).on s with ⟨x | outcome, t⟩ <;> rw [hon] at hone
    · exact hone
    · have hrest := ih (fun k hk => hkeys k (List.mem_cons_of_mem key hk)) hone
      dsimp only
      rw [on_bind]
      rcases hon' : (routeTo svc e now rest).on t with ⟨x | others, u⟩ <;> rw [hon'] at hrest <;>
        exact hrest

/-- The cursors to which an event is routed wait, also before it was counted. -/
theorem awaits_of_mem (hw : w.cursors.Indexed) (hkey : key ∈ w.cursors.awaiting e) :
    Awaits e w key := by
  obtain ⟨hlisted, htest⟩ := List.mem_filter.1 hkey
  obtain ⟨c, hc, hwaits⟩ := (Option.any_eq_true _ _).1 htest
  rw [Bool.and_eq_true, beq_iff_eq, beq_iff_eq] at hwaits
  have hlead := ((hw.mem_ofLead _ _).1 hlisted).1
  obtain rfl := CursorStore.key_eq_of_find? hc
  exact ⟨c, hc, hlead, hwaits⟩

theorem awaiting_count (w : World) (e : Engagement) (received : Instant) :
    (w.count e none received).cursors.awaiting e = w.cursors.awaiting e :=
  ofLeadWhere_count w e none received e.leadId fun _ _ => rfl

theorem route_touched (hq : svc.mailer.Quiet) (hw : w.cursors.Indexed)
    (hs : s.world = w.count e none now) : w.Touched e ((route svc e now).on s).2.world := by
  have hcounted : w.Touched e s.world := hs ▸ touched_count hw e now
  have hkeys : ∀ key ∈ s.world.cursors.awaiting e, Awaits e w key := by
    rw [hs, awaiting_count]
    exact fun key => awaits_of_mem hw
  unfold route
  rw [on_bind_ok (on_world s)]
  split
  · exact hcounted
  · have hrouted : w.Touched e ((routeTo svc e now (s.world.cursors.awaiting e)).on s).2.world :=
      routeTo_touched hq hkeys hcounted
    rw [on_bind]
    rcases hon : (routeTo svc e now (s.world.cursors.awaiting e)).on s with ⟨x | n, t⟩ <;>
      rw [hon] at hrouted <;> exact hrouted

/-- An event that is let in and does not stop its lead is counted and routed, and then its key is
settled. -/
theorem on_ingest_routed (hfresh : s.world.seen.table.find? e.key = none)
    (hkind : e.haltsLead = false) (svc : Services σ) (now : Instant) :
    ∃ seen, (ingest svc e now).on s = match (route svc e now).on
        { s with world := World.count { s.world with seen } e none now } with
      | (.ok report, t) => (.ok report, { t with world := ((Change.settle e.key).on t.world).2 })
      | (.error x, t) => (.error x, t) := by
  obtain ⟨seen, hseen⟩ := SeenKeys.receive_of_fresh hfresh now
  have honward : onward svc e now = route svc e now := by
    rw [onward, if_neg (by rw [hkind]; exact Bool.false_ne_true)]
  have hprocess := on_process svc e now
    { s with world := World.count { s.world with seen } e none now }
  rw [honward] at hprocess
  exact ⟨seen, (on_ingest_new hseen svc).trans hprocess⟩

/-- An event that is let in and does not stop its lead touches what it may, whatever comes of it. -/
theorem ingest_touched (hq : svc.mailer.Quiet) (hw : s.world.cursors.Indexed)
    (hfresh : s.world.seen.table.find? e.key = none) (hkind : e.haltsLead = false) :
    s.world.Touched e ((ingest svc e now).on s).2.world := by
  obtain ⟨seen, hingest⟩ := on_ingest_routed hfresh hkind svc now
  have hrouted : ({ s.world with seen } : World).Touched e ((route svc e now).on
      { s with world := ({ s.world with seen } : World).count e none now }).2.world :=
    route_touched hq hw rfl
  rw [hingest]
  rcases hon : (route svc e now).on
    { s with world := ({ s.world with seen } : World).count e none now } with ⟨x | report, t⟩ <;>
    rw [hon] at hrouted
  · exact hrouted.of_seen
  · exact hrouted.of_seen.settled e.key

/-- An event that is let in and stops its lead has a result, and stops the lead. -/
theorem ingest_halted (hw : s.world.cursors.Indexed)
    (hfresh : s.world.seen.table.find? e.key = none) (hkind : e.haltsLead = true)
    (svc : Services σ) (now : Instant) :
    ∃ v, (ingest svc e now).on s =
        (.ok { key := e.key, canceled := s.world.cursors.all.countP fun c =>
          c.leadId == e.leadId && !c.state.terminal }, { s with world := v }) ∧
      s.world.LeadHalted e v := by
  obtain ⟨seen, hseen⟩ := SeenKeys.receive_of_fresh hfresh now
  let w : World := { s.world with seen }
  have hsent : e.kind ≠ .sent := by
    intro h
    rw [Engagement.haltsLead, h] at hkind
    cases hkind
  have hw' : w.cursors.Enlisted := hw.toEnlisted
  obtain ⟨v, hon, hv⟩ := Change.haltLead_halts (enlisted_count hw' e none now) e now
  rw [running_count] at hon hv
  have honward : (onward svc e now).on { s with world := w.count e none now } =
      (.ok { key := e.key, canceled := (w.cursors.running e.leadId).length }, { s with world := v }) := by
    rw [onward, if_pos hkind, on_lift, hon]
  have hhalted : w.LeadHalted e v := hv.halted hw hsent
  have hlength : (w.cursors.running e.leadId).length = s.world.cursors.all.countP fun c =>
      c.leadId == e.leadId && !c.state.terminal := CursorStore.Indexed.length_ofLeadWhere hw _ _
  refine ⟨((Change.settle e.key).on v).2, ?_, hhalted.of_seen.settled e.key⟩
  rw [on_ingest_new hseen, on_process, honward, hlength]

end Engine

end MailCampaign
