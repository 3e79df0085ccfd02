import MailCampaign.Proofs.World.Course
import MailCampaign.Proofs.World.Keep

/-!
# Changes that follow courses

A change follows a scope when it takes a course within it from every world. The operations on
campaigns and leads, counting and upkeep all do, in a scope in which no cursor takes a turn: they only
cancel cursors and count on them. Cancelling reaches every cursor that it is meant for, so that after
a pause or a cancellation of a campaign none of its cursors runs.
-/

namespace MailCampaign

open World

/-! ## Bookkeeping -/

namespace World

variable {policy : RetryPolicy} {scope : Scope} {w : World}

theorem booked_journalTotals (w : World) (campaign : Uuid) (applied : Option (String × Instant))
    (unique : Option (String × EngagementKind)) :
    w.Booked (w.journalTotals campaign applied unique) := booked_emit w (.stats _ _ _ _)

theorem booked_report (w : World) (c : Cursor) (milestone : Milestone) (nodeId : String)
    (now : Instant) : w.Booked (w.report c milestone nodeId now) := booked_emit w (.activity _)

theorem booked_statistics (w : World) (statistics : Statistics) : w.Booked { w with statistics } :=
  ⟨rfl, rfl, rfl, [], rfl, fun _ h => absurd h List.not_mem_nil⟩

theorem booked_seen (w : World) (seen : SeenKeys) : w.Booked { w with seen } :=
  ⟨rfl, rfl, rfl, [], rfl, fun _ h => absurd h List.not_mem_nil⟩

theorem booked_countEnrolled (w : World) (campaign : Uuid) : w.Booked (w.countEnrolled campaign) :=
  (booked_statistics w _).trans (booked_journalTotals _ _ _ _)

theorem booked_countOutcome (w : World) (campaign : Uuid) (state : CursorState) :
    w.Booked (w.countOutcome campaign state) := by
  unfold countOutcome
  split
  · exact (booked_statistics w _).trans (booked_journalTotals _ _ _ _)
  · exact booked_statistics w _

theorem countOnCursor_course (e : Engagement) (w : World) (key : CursorKey) :
    w.Course policy scope (countOnCursor e w key) := by
  unfold countOnCursor
  split
  · next c hc => exact .single (.counted e hc)
  · exact .refl

theorem countOnCursors_course (e : Engagement) (w : World) (keys : List CursorKey) :
    w.Course policy scope (keys.foldl (countOnCursor e) w) := by
  induction keys generalizing w with
  | nil => exact .refl
  | cons key rest ih => exact (countOnCursor_course e w key).trans (ih _)

theorem count_course (w : World) (e : Engagement) (only : Option CursorKey) (received : Instant) :
    w.Course policy scope (w.count e only received) := by
  unfold count
  split
  · exact .refl
  · next v hv =>
    obtain ⟨s, -, rfl⟩ := Option.map_eq_some_iff.1 hv
    have hbooked : w.Booked _ :=
      (booked_statistics w s).trans (booked_journalTotals _ e.campaignId (some (e.key, received))
        (if w.statistics.isFirst e then some (e.leadId, e.kind) else none))
    exact hbooked.course.trans (countOnCursors_course e _ _)

end World

/-- A world in which no cursor of a campaign runs. -/
def World.Halted (w : World) (campaign : Uuid) : Prop :=
  ∀ key c, w.cursors.find? key = some c → c.campaignId = campaign → c.state.terminal = true

namespace Change

variable {policy : RetryPolicy} {scope : Scope} {α β : Type}

instance : IsPreorder World (World.Course policy scope) where
  refl := fun _ => .refl
  trans := fun _ _ _ => .trans

/-- A change that takes a course within a scope from every world. -/
def Follows (policy : RetryPolicy) (scope : Scope) (c : Change α) : Prop :=
  ∀ w : World, w.Course policy scope (c.on w).2

namespace Follows

theorem apply {f : World → World} (h : ∀ w : World, w.Course policy scope (f w)) :
    (Change.apply f).Follows policy scope := h

theorem need (e : Fault) (o : Option α) : (need e o).Follows policy scope := Keeps.need e o

theorem bind {c : Change α} {f : α → Change β} (hc : c.Follows policy scope)
    (hf : ∀ a, (f a).Follows policy scope) : (c >>= f).Follows policy scope := Keeps.bind hc hf

/-- A change that looks at the world first. -/
theorem get {f : World → Change α} (hf : ∀ w : World, w.Course policy scope ((f w).on w).2) :
    (MonadState.get >>= f : Change α).Follows policy scope := Keeps.get hf

theorem discard {c : Change α} (hc : c.Follows policy scope) :
    (discard c).Follows policy scope := Keeps.discard hc

end Follows

/-! ## Cancelling -/

/-- Counting and reporting an end. -/
theorem on_finish (c : Cursor) (nodeId : String) (state : CursorState) (milestone : Milestone)
    (now : Instant) (w : World) :
    (finish c nodeId state milestone now).on w =
      (.ok (.finished state), (w.countOutcome c.campaignId state).report c milestone nodeId now) :=
  rfl

theorem booked_finish (c : Cursor) (nodeId : String) (state : CursorState) (milestone : Milestone)
    (now : Instant) (w : World) :
    w.Booked ((w.countOutcome c.campaignId state).report c milestone nodeId now) :=
  (booked_countOutcome w _ _).trans (booked_report _ _ _ _ _)

/-- Cancelling a stored cursor succeeds, and the cursor runs no more. -/
theorem cancel_stored (policy : RetryPolicy) (scope : Scope) {w : World} {key : CursorKey}
    {c : Cursor} (reason : String) (now : Instant)
    (hc : w.cursors.find? key = some c) :
    ∃ b v, (cancel key reason now).on w = (.ok b, v) ∧ w.Course policy scope v ∧
      ∃ d, v.cursors.find? key = some d ∧ d.state.terminal = true := by
  unfold cancel
  rw [on_bind_ok (on_cursor_some hc)]
  cases ht : c.state.terminal with
  | true =>
    exact ⟨false, w.storeCursor c c, rfl, .single (.kept hc), c, find?_storeCursor_self hc rfl, ht⟩
  | false =>
    have hbooked := booked_finish c c.nodeId .canceled (.canceled reason) now
      (w.storeCursor c (canceled reason now c))
    refine ⟨true, _, rfl, (Relation.ReflTransGen.single (.canceled reason now hc ht)).trans
      hbooked.course, canceled reason now c, ?_, rfl⟩
    rw [hbooked.cursors]
    exact find?_storeCursor_self hc rfl

theorem cancel_follows (key : CursorKey) (reason : String) (now : Instant) :
    (cancel key reason now).Follows policy scope := by
  intro w
  cases hc : w.cursors.find? key with
  | some c =>
    obtain ⟨b, v, hon, hv, -⟩ := cancel_stored policy scope reason now hc
    rw [hon]
    exact hv
  | none =>
    unfold cancel
    rw [on_bind_error (on_cursor_none hc)]

/-- Cancelling stored cursors succeeds, and none of them runs any more. -/
theorem cancelAll_stored (policy : RetryPolicy) (scope : Scope) (reason : String) (now : Instant)
    {keys : List CursorKey} {w : World}
    (hstored : ∀ key ∈ keys, ∃ c, w.cursors.find? key = some c) :
    ∃ n v, (cancelAll reason now keys).on w = (.ok n, v) ∧ w.Course policy scope v ∧
      ∀ key ∈ keys, ∃ d, v.cursors.find? key = some d ∧ d.state.terminal = true := by
  induction keys generalizing w with
  | nil => exact ⟨0, w, rfl, .refl, fun _ h => absurd h List.not_mem_nil⟩
  | cons key rest ih =>
    obtain ⟨c, hc⟩ := hstored key List.mem_cons_self
    obtain ⟨b, u, hon, hu, d, hd, ht⟩ := cancel_stored policy scope reason now hc
    obtain ⟨n, v, hon', hv, hrest⟩ := ih fun k hk => by
      obtain ⟨c', hc'⟩ := hstored k (List.mem_cons_of_mem _ hk)
      obtain ⟨d', hd', -⟩ := hu.stored hc'
      exact ⟨d', hd'⟩
    refine ⟨n + if b then 1 else 0, v, ?_, hu.trans hv, fun k hk => ?_⟩
    · unfold cancelAll
      rw [on_bind_ok hon, on_bind_ok hon', on_pure]
    · rcases List.mem_cons.1 hk with rfl | hk
      · exact ⟨d, hv.terminal hd ht, ht⟩
      · exact hrest k hk

/-- Cancelling the cursors of a campaign succeeds, and none of them runs any more. -/
theorem cancelRunning_on (policy : RetryPolicy) (scope : Scope) (campaign : Uuid) (reason : String)
    (now : Instant) (w : World) :
    ∃ n v, (cancelRunning campaign reason now).on w = (.ok n, v) ∧ w.Course policy scope v ∧
      v.Halted campaign := by
  have hstored : ∀ key ∈ w.cursors.ofCampaign campaign, ∃ c, w.cursors.find? key = some c := by
    intro key hkey
    obtain ⟨c, hc, -⟩ := CursorStore.mem_keysWhere.1 hkey
    exact ⟨c, hc⟩
  obtain ⟨n, v, hon, hv, hall⟩ := cancelAll_stored policy .idle reason now hstored
  refine ⟨n, v, ?_, hv.mono (Scope.idle_within scope), fun key d hd hcampaign => ?_⟩
  · unfold cancelRunning
    rw [on_bind_ok (on_get w), hon]
  · -- The cursor was there before, in the same campaign, so its key is one of those gone through.
    obtain ⟨c, hc, -⟩ := hv.found id hd
    obtain ⟨d', hd', hsame⟩ := hv.stored hc
    obtain rfl : d' = d := Option.some.inj (hd'.symm.trans hd)
    have hmem : key ∈ w.cursors.ofCampaign campaign :=
      CursorStore.mem_keysWhere.2 ⟨c, hc, by rw [← hsame.campaignId, hcampaign, beq_self_eq_true]⟩
    obtain ⟨d'', hd'', ht⟩ := hall key hmem
    rwa [Option.some.inj (hd'.symm.trans hd'')]

/-! ## Campaigns -/

theorem on_requireCampaign (campaign : Uuid) (w : World) :
    (requireCampaign campaign).on w =
      if w.campaigns.contains campaign then (.ok ⟨⟩, w)
      else (.error (.missing (.campaign campaign)), w) := by
  unfold requireCampaign
  rw [on_bind_ok (on_get w)]
  cases w.campaigns.contains campaign <;> rfl

/-- A pause is refused, or it halts the campaign. -/
theorem pause_on (policy : RetryPolicy) (scope : Scope) (campaign : Uuid) (now : Instant)
    (w : World) :
    (∃ x, (pause campaign now).on w = (.error x, w)) ∨
      ∃ n v, (pause campaign now).on w = (.ok n, v) ∧ w.Course policy scope v ∧
        v.Halted campaign := by
  unfold pause
  have hreq := on_requireCampaign campaign w
  split at hreq
  · rw [on_bind_ok hreq, on_bind_ok (on_get w)]
    by_cases hs : w.status campaign = .canceled
    · rw [if_pos hs]
      exact .inl ⟨_, rfl⟩
    · rw [if_neg hs]
      obtain ⟨n, v, hon, hv, hhalt⟩ := cancelRunning_on policy scope campaign
        "campaign paused" now (w.setStatus campaign .paused)
      refine .inr ⟨n, v, hon, ?_, hhalt⟩
      exact (Relation.ReflTransGen.single (.status fun h => absurd h hs)).trans hv
  · exact .inl ⟨_, on_bind_error hreq⟩

/-- A cancellation is refused, or it halts the campaign for good. -/
theorem cancelCampaign_on (policy : RetryPolicy) (scope : Scope) (campaign : Uuid) (now : Instant)
    (w : World) :
    (∃ x, (cancelCampaign campaign now).on w = (.error x, w)) ∨
      ∃ n v, (cancelCampaign campaign now).on w = (.ok n, v) ∧ w.Course policy scope v ∧
        v.Halted campaign ∧ v.status campaign = .canceled := by
  unfold cancelCampaign
  have hreq := on_requireCampaign campaign w
  split at hreq
  · rw [on_bind_ok hreq]
    obtain ⟨n, v, hon, hv, hhalt⟩ := cancelRunning_on policy scope campaign
      "campaign canceled" now (w.setStatus campaign .canceled)
    have hstatus : (w.setStatus campaign .canceled).status campaign = .canceled := by
      rw [status_setStatus, if_pos rfl]
    exact .inr ⟨n, v, hon, (Relation.ReflTransGen.single (.status fun _ => rfl)).trans hv, hhalt,
      hv.canceled_status hstatus⟩
  · exact .inl ⟨_, on_bind_error hreq⟩

theorem pause_follows (campaign : Uuid) (now : Instant) :
    (pause campaign now).Follows policy scope := by
  intro w
  rcases pause_on policy scope campaign now w with ⟨x, h⟩ | ⟨n, v, h, hv, -⟩ <;> rw [h]
  exact hv

theorem cancelCampaign_follows (campaign : Uuid) (now : Instant) :
    (cancelCampaign campaign now).Follows policy scope := by
  intro w
  rcases cancelCampaign_on policy scope campaign now w with ⟨x, h⟩ | ⟨n, v, h, hv, -⟩ <;> rw [h]
  exact hv

theorem requireCampaign_follows (campaign : Uuid) :
    (requireCampaign campaign).Follows policy scope := by
  intro w
  rw [on_requireCampaign]
  split <;> exact .refl

theorem resume_follows (campaign : Uuid) : (resume campaign).Follows policy scope := by
  refine (requireCampaign_follows campaign).bind fun _ => .get fun w => ?_
  cases hs : w.status campaign with
  | active => exact .refl
  | paused => exact .single (.status fun h => by rw [hs] at h; cases h)
  | canceled => exact .refl

/-- An activation under an id of its own takes a course. -/
theorem activate_course (policy : RetryPolicy) (scope : Scope) (campaign : Uuid)
    (document : Document) (now : Instant) {w : World}
    (hfresh : w.flows.find? (Uuid.ofNat w.nextId) = none) :
    w.Course policy scope ((activate campaign document now).on w).2 := by
  unfold activate
  rw [on_bind_ok (on_get w)]
  by_cases hs : w.status campaign = .canceled
  · rw [if_pos hs]
    exact .refl
  · rw [if_neg hs]
    cases ha : w.flows.activate (Uuid.ofNat w.nextId) campaign document now with
    | error v => exact .refl
    | ok stored =>
      exact (Relation.ReflTransGen.single (.activated (w.nextId + 1) ha hfresh)).tail (.status id)

/-! ## Canceled campaigns -/

/-- A canceled campaign takes no new version. -/
theorem activate_canceled {campaign : Uuid} {w : World} (h : w.status campaign = .canceled)
    (document : Document) (now : Instant) :
    (activate campaign document now).on w = (.error (.halted (.activation campaign)), w) := by
  unfold activate
  rw [on_bind_ok (on_get w), if_pos h]
  rfl

/-- A canceled campaign is one that is known. -/
theorem contains_of_canceled {campaign : Uuid} {w : World} (h : w.status campaign = .canceled) :
    w.campaigns.contains campaign = true := by
  unfold World.status at h
  unfold Table.contains
  cases hf : w.campaigns.find? campaign with
  | some s => rfl
  | none => rw [hf] at h; cases h

/-- A canceled campaign is not paused. -/
theorem pause_canceled {campaign : Uuid} {w : World} (h : w.status campaign = .canceled)
    (now : Instant) : (pause campaign now).on w = (.error (.clash (.canceled campaign)), w) := by
  have hreq := on_requireCampaign campaign w
  rw [if_pos (contains_of_canceled h)] at hreq
  unfold pause
  rw [on_bind_ok hreq, on_bind_ok (on_get w), if_pos h]
  rfl

/-- A canceled campaign is not opened again. -/
theorem resume_canceled {campaign : Uuid} {w : World} (h : w.status campaign = .canceled) :
    (resume campaign).on w = (.error (.clash (.canceled campaign)), w) := by
  have hreq := on_requireCampaign campaign w
  rw [if_pos (contains_of_canceled h)] at hreq
  unfold resume
  rw [on_bind_ok hreq, on_bind_ok (on_get w), h]
  rfl

/-! ## Leads and upkeep -/

theorem receive_follows (e : Engagement) (now : Instant) :
    (receive e now).Follows policy scope := by
  refine .get fun w => ?_
  cases w.seen.receive e.key now with
  | none => exact .refl
  | some seen => exact (booked_seen w seen).course

theorem settle_follows (key : String) : (settle key).Follows policy scope := by
  refine .get fun w => ?_
  rcases w.seen.settle key with ⟨seen, _ | time⟩
  · exact (booked_seen w seen).course
  · exact ((booked_seen w seen).trans (booked_emit _ (.seenKey key time))).course

theorem ingestHalting_follows (e : Engagement) (now : Instant) :
    (ingestHalting e now).Follows policy scope :=
  Keeps.ingestHalting (receive_follows e now)
    (Follows.apply fun w => count_course w e none now) (fun key => cancel_follows key _ now)
    (settle_follows e.key)

theorem prune_follows (ttlHours : UInt64) (now : Instant) :
    (prune ttlHours now).Follows policy scope := by
  refine (Follows.need _ _).bind fun ttl => (Follows.need _ _).bind fun cutoff => .get fun w => ?_
  exact ((booked_seen w (w.seen.prune cutoff)).trans
    (booked_statistics _ (w.statistics.prune cutoff))).course

end Change

end MailCampaign
