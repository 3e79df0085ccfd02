import MailCampaign.Proofs.World.Posting

/-!
# Changes that post what they do

Every change of the engine is a row of postings, fault or not. A move is one posting when it leaves
the cursor running. When it ends the cursor, the posting also takes in the counting that follows, so
moves into terminal states are treated together with it. A change that counts for the campaign of a
cursor that was read before needs that cursor to be stored for the same campaign still.
-/

namespace MailCampaign

namespace World

variable {prunes : Prop}

/-- Postings, as long as a cursor is stored for its campaign. -/
def PostsFor (c : Cursor) (w v : World) : Prop := w.Holds c → w.Postings False v

instance : IsPreorder World (Postings prunes) where
  refl := fun _ => .refl
  trans := fun _ _ _ => .trans

instance (c : Cursor) : IsPreorder World (PostsFor c) where
  refl := fun _ _ => .refl
  trans := fun _ _ _ h h' hc => (h hc).trans (h' (hc.after (h hc)))

theorem Postings.postsFor {w v : World} (h : w.Postings False v) (c : Cursor) : w.PostsFor c v :=
  fun _ => h

/-- Nothing happens, or a stored cursor is written down once more. -/
inductive Kept (w : World) : World → Prop
  | same : Kept w w
  | written {c : Cursor} : w.cursors.find? c.key = some c → Kept w (w.storeCursor c c)

theorem Kept.postings {w v : World} (h : w.Kept v) : w.Postings prunes v := by
  cases h with
  | same => exact .refl
  | written hc => exact (Posting.rewritten hc .kept).single

/-! ## Counting -/

theorem countOnCursor_postings (e : Engagement) (w : World) (key : CursorKey) :
    w.Postings prunes (countOnCursor e w key) := by
  unfold countOnCursor
  split
  · next c hc =>
    obtain rfl := CursorStore.key_eq_of_find? hc
    exact (Posting.rewritten hc (c.rewritten_counted e)).single
  · exact .refl

theorem count_postings (e : Engagement) (w : World) (only : Option CursorKey) (received : Instant) :
    w.Postings prunes (w.count e only received) := by
  have hcursors : ∀ (l : List CursorKey) (w : World),
      w.Postings prunes (l.foldl (countOnCursor e) w) := by
    intro l
    induction l with
    | nil => exact fun _ => .refl
    | cons key rest ih => exact fun w => (countOnCursor_postings e w key).trans (ih _)
  unfold count
  split
  · exact .refl
  · next v hv =>
    obtain ⟨s, hs, rfl⟩ := Option.map_eq_some_iff.1 hv
    exact (Posting.counted hs).single.trans (hcursors _ _)

end World

namespace Change

open World

variable {α β : Type} {key : CursorKey} {node : Node} {c d : Cursor} {g : Graph} {now : Instant}
  {prunes : Prop}

theorem Keeps.for {e : Change α} (h : e.Keeps (Postings False)) (c : Cursor) :
    e.Keeps (PostsFor c) := h.mono fun _ _ h => h.postsFor c

theorem report_posts {milestone : Milestone} {nodeId : String} :
    (apply (·.report c milestone nodeId now)).Keeps (Postings prunes) :=
  .apply fun w => (told_report w c milestone nodeId now).single

/-! ## Moves -/

/-- A revision is refused, which writes the stored cursor down, or the new form takes its place. -/
theorem revise_cases (key : CursorKey) (f : Cursor → Except Fault Cursor) (w : World) :
    (∃ x v, (revise key f).on w = (.error x, v) ∧ w.Kept v) ∨
      ∃ c d, c.key = key ∧ w.cursors.find? c.key = some c ∧ f c = .ok d ∧
        (revise key f).on w = (.ok d, w.storeCursor c d) := by
  cases hc : w.cursors.find? key with
  | none =>
    exact .inl ⟨_, w, on_bind_error (on_cursor_none hc), .same⟩
  | some c =>
    obtain rfl := CursorStore.key_eq_of_find? hc
    cases hf : f c with
    | error x => exact .inl ⟨x, _, revise_error hc hf, .written hc⟩
    | ok d => exact .inr ⟨c, d, rfl, hc, hf, revise_ok hc hf⟩

/-- What is permitted starts from a running cursor. -/
theorem running_of_permit {state : CursorState} {new : Cursor} (h : permit c state new = .ok d) :
    c.state.terminal = false ∧ new = d := by
  unfold permit at h
  split at h
  · next hs =>
    refine ⟨?_, Except.ok.inj h⟩
    by_contra ht
    rw [Bool.not_eq_false] at ht
    rw [CursorState.mayBecome_of_terminal ht] at hs
    cases hs
  · cases h

/-- The fields that a move changes besides the state leave the cursor with its lead. -/
structure Tame (f : Cursor → Cursor) : Prop where
  sameLead : ∀ c : Cursor, c.SameLead (f c)
  state : ∀ c : Cursor, (f c).state = c.state

/-- A move is refused, or the cursor ran and is stored with the new state. -/
theorem move_cases {state : CursorState} {outcome : String} {f : Cursor → Cursor} (hf : Tame f)
    (w : World) :
    (∃ x v, (move key node state outcome now f).on w = (.error x, v) ∧ w.Postings False v) ∨
      ∃ c d, c.key = key ∧ w.cursors.find? c.key = some c ∧ c.SameLead d ∧
        c.state.terminal = false ∧ d.state = state ∧
        (move key node state outcome now f).on w = (.ok d, w.storeCursor c d) := by
  unfold move
  rcases revise_cases key _ w with ⟨x, v, hon, hv⟩ | ⟨c, d, hkey, hc, hd, hon⟩
  · exact .inl ⟨x, v, hon, hv.postings⟩
  · split at hd
    · cases hd
    · obtain ⟨hrun, rfl⟩ := running_of_permit hd
      have hlog : c.SameLead (c.log node.action.name outcome state now) := ⟨rfl, rfl, rfl⟩
      exact .inr ⟨c, f (c.log node.action.name outcome state now), hkey, hc,
        hlog.trans (hf.sameLead _), hrun, hf.state _, hon⟩

/-- A move into a state that is not terminal is posted. -/
theorem move_posts {state : CursorState} {outcome : String} {f : Cursor → Cursor}
    (hs : state.terminal = false) (hf : Tame f) :
    (move key node state outcome now f).Keeps (Postings False) := by
  intro w
  rcases move_cases hf w with ⟨x, v, hon, hv⟩ | ⟨c, d, -, hc, hsame, hrun, hd, hon⟩
  · rw [hon]
    exact hv
  · rw [hon]
    exact (Posting.rewritten hc (.running hsame hrun (by rw [hd, hs]))).single

/-- A cursor that ended is counted for its campaign and reported. -/
theorem finish_ended {w : World} {state : CursorState} {nodeId : String} {milestone : Milestone}
    {b : Cursor} (hc : w.cursors.find? c.key = some c) (hd : c.Ended d) (hs : d.state = state)
    (hb : b.campaignId = c.campaignId) :
    w.Postings False ((finish b nodeId state milestone now).on (w.storeCursor c d)).2 := by
  rw [on_finish, hb, ← hs]
  exact (Posting.ended hc hd).single.trans (told_report _ _ _ _ _).single

/-- A move into a terminal state is posted with the counting of the end. -/
theorem conclude_posts {state : CursorState} {outcome : String} {f : Cursor → Cursor}
    {nodeId : String} {milestone : Milestone} (hs : state.terminal = true) (hf : Tame f) :
    (do
      discard <| move c.key node state outcome now f
      finish c nodeId state milestone now).Keeps (PostsFor c) := by
  intro w hheld
  have hmove : (∃ x v, (move c.key node state outcome now f).on w = (.error x, v) ∧
      w.Postings False v) ∨ _ := move_cases hf w
  rcases hmove with ⟨x, v, hon, hv⟩ | ⟨b, d, hkey, hb, hsame, hrun, hd, hon⟩
  · rw [on_bind_error (discard_error hon)]
    exact hv
  · rw [on_bind_ok (discard_ok hon)]
    obtain ⟨b', hb', hcampaign⟩ := hheld
    obtain rfl : b = b' := Option.some.inj (by rw [← hb, hkey, hb'])
    exact finish_ended hb ⟨hsame, hrun, by rw [hd, hs]⟩ hd hcampaign.symm

theorem fail_posts {reason : String} : (fail key reason now).Keeps (Postings False) := by
  intro w
  unfold fail
  rcases revise_cases key _ w with ⟨x, v, hon, hv⟩ | ⟨c, d, -, hc, hd, hon⟩
  · rw [on_bind_error hon]
    exact hv.postings
  · rw [on_bind_ok hon]
    obtain ⟨hrun, rfl⟩ := running_of_permit hd
    exact finish_ended hc ⟨⟨rfl, rfl, rfl⟩, hrun, rfl⟩ rfl rfl

theorem cancel_posts {reason : String} : (cancel key reason now).Keeps (Postings False) := by
  intro w
  unfold cancel
  cases hc : w.cursors.find? key with
  | none =>
    rw [on_bind_error (on_cursor_none hc)]
  | some c =>
    obtain rfl := CursorStore.key_eq_of_find? hc
    rw [on_bind_ok (on_cursor_some hc)]
    cases ht : c.state.terminal with
    | true => exact (Posting.rewritten hc .kept).single
    | false =>
      have hended : c.Ended (canceled reason now c) := ⟨c.sameLead_canceled reason now, ht, rfl⟩
      have hfinish : w.Postings False ((finish c c.nodeId .canceled (.canceled reason) now).on
          (w.storeCursor c (canceled reason now c))).2 := finish_ended hc hended rfl rfl
      rw [if_neg Bool.false_ne_true, on_bind_ok (on_apply _ w), on_bind_ok (discard_ok (on_finish ..))]
      exact hfinish

theorem advance_posts {branch : Branch} {outcome : String} :
    (advance g c node branch outcome now).Keeps (PostsFor c) := by
  unfold advance
  split
  · next next _ =>
    have hmove : (move c.key node .active outcome now fun c => c.moveTo next.id).Keeps
        (Postings False) := move_posts rfl ⟨fun _ => ⟨rfl, rfl, rfl⟩, fun _ => rfl⟩
    exact (hmove.for c).discard.bind fun _ => .pure _
  · exact conclude_posts rfl ⟨fun _ => ⟨rfl, rfl, rfl⟩, fun _ => rfl⟩

theorem scheduleDelay_posts {wait : Wait} :
    (scheduleDelay c node wait now).Keeps (Postings False) := by
  refine Keeps.bind (.need _ _) fun fireAt => ?_
  have hmove : (move c.key node .waitingDelay "delay_scheduled" now
      fun c => { c with nextRun := some fireAt }).Keeps (Postings False) :=
    move_posts rfl ⟨fun _ => ⟨rfl, rfl, rfl⟩, fun _ => rfl⟩
  exact hmove.discard.bind fun _ => report_posts.bind fun _ => .pure _

theorem reachGoal_posts : (reachGoal c node now).Keeps (PostsFor c) :=
  conclude_posts rfl ⟨fun _ => ⟨rfl, rfl, rfl⟩, fun _ => rfl⟩

theorem resolve_posts {k : Condition} {cause : Cause} :
    (resolve g c node k cause now).Keeps (PostsFor c) := by
  unfold resolve
  split
  · exact .pure _
  · split
    · exact .pure _
    · exact advance_posts.bind fun _ => (report_posts.for c).bind fun _ => .pure _

theorem enterCondition_posts {k : Condition} :
    (enterCondition g c node k now).Keeps (PostsFor c) := by
  refine Keeps.bind (.need _ _) fun deadline w hheld => ?_
  have hf : Tame fun c : Cursor =>
      { c with nextRun := some deadline, window := some ⟨node.id, now, deadline, []⟩ } :=
    ⟨fun _ => ⟨rfl, rfl, rfl⟩, fun _ => rfl⟩
  have hmove : (∃ x v, (move c.key node .waitingCondition "condition_entered" now _).on w =
      (.error x, v) ∧ w.Postings False v) ∨ _ := move_cases hf w
  rcases hmove with ⟨x, v, hon, hv⟩ | ⟨b, d, hkey, hb, hsame, hrun, hd, hon⟩
  · rw [on_bind_error hon]
    exact hv
  · rw [on_bind_ok hon]
    have hstored : w.Postings False (w.storeCursor b d) :=
      (Posting.rewritten hb (.running hsame hrun (by rw [hd]; rfl))).single
    have hd' : (w.storeCursor b d).Holds d :=
      .of_find? (by rw [find?_storeCursor, if_pos rfl])
    exact hstored.trans (resolve_posts _ hd')

theorem observe_posts {k : Condition} {e : Engagement} :
    (observe g c node k e now).Keeps (PostsFor c) := by
  unfold observe
  split
  · exact .pure _
  · rintro w -
    cases hc : w.cursors.find? c.key with
    | none =>
      rw [on_bind_error (on_cursor_none hc)]
    | some stored =>
      have hstored := CursorStore.key_eq_of_find? hc ▸ hc
      rw [on_bind_ok (on_cursor_some hc)]
      cases ho : observed e node now stored with
      | none => exact (Posting.rewritten hstored .kept).single
      | some new =>
        have hrewritten : stored.Rewritten new := by
          unfold observed at ho
          split at ho
          · split at ho
            · next hwait =>
              obtain rfl := Option.some.inj ho
              exact .running ⟨rfl, rfl, rfl⟩ (by rw [hwait.1]; rfl) (by rw [hwait.1]; rfl)
            · cases ho
          · cases ho
        have hnew : (w.storeCursor stored new).Holds new :=
          .of_find? (by rw [find?_storeCursor, if_pos rfl])
        exact (Posting.rewritten hstored hrewritten).single.trans (resolve_posts _ hnew)

/-! ## Mails -/

theorem mailSent_posts {messageId : String} :
    (mailSent g c node messageId now).Keeps (PostsFor c) :=
  Keeps.bind (.apply fun w => World.Postings.postsFor
      ((count_postings _ w _ _).trans (told_report _ _ _ _ _).single) c)
    fun _ => advance_posts

theorem mailFailed_posts {policy : RetryPolicy} {reason : String} :
    (mailFailed policy c node reason now).Keeps (Postings False) := by
  unfold mailFailed
  dsimp only
  split
  · exact fail_posts
  · refine Keeps.bind (.need _ _) fun retryAt => ?_
    have hmove : (move c.key node .waitingDelay "send_retry" now
        fun d => { d with retries := c.retries + 1, nextRun := some retryAt }).Keeps
        (Postings False) := move_posts rfl ⟨fun _ => ⟨rfl, rfl, rfl⟩, fun _ => rfl⟩
    exact hmove.discard.bind fun _ => report_posts.bind fun _ => .pure _

theorem settleMail_posts {policy : RetryPolicy} {result : Except SendFault String} :
    (settleMail policy g c node now result).Keeps (PostsFor c) := by
  rcases result with (reason | reason) | messageId
  · exact mailFailed_posts.for c
  · exact fail_posts.for c
  · exact mailSent_posts

/-! ## Control -/

theorem requireCampaign_posts {campaign : Uuid} :
    (requireCampaign campaign).Keeps (Postings prunes) := by
  intro w
  rw [on_requireCampaign]
  split <;> exact .refl

theorem setStatus_posts {campaign : Uuid} {status : CampaignStatus} :
    (apply (·.setStatus campaign status)).Keeps (Postings False) :=
  .apply fun _ => (Posting.status campaign status).single

theorem cancelRunning_posts {campaign : Uuid} {reason : String} :
    (cancelRunning campaign reason now).Keeps (Postings False) :=
  .get fun w => Keeps.cancelAll (fun _ => cancel_posts) _ w

theorem pause_posts {campaign : Uuid} : (pause campaign now).Keeps (Postings False) := by
  refine requireCampaign_posts.bind fun _ => .get fun w => ?_
  split
  · exact .refl
  · exact (setStatus_posts.bind fun _ => cancelRunning_posts) w

theorem cancelCampaign_posts {campaign : Uuid} :
    (cancelCampaign campaign now).Keeps (Postings False) :=
  requireCampaign_posts.bind fun _ => setStatus_posts.bind fun _ => cancelRunning_posts

theorem resume_posts {campaign : Uuid} : (resume campaign).Keeps (Postings False) := by
  refine requireCampaign_posts.bind fun _ => .get fun w => ?_
  cases w.status campaign with
  | paused => exact setStatus_posts w
  | _ => exact .refl

/-- An activation is posted, if the id drawn for the version is new. -/
theorem activate_postings (campaign : Uuid) (document : Document) (now : Instant) {w : World}
    (hfresh : w.flows.find? (Uuid.ofNat w.nextId) = none) :
    w.Postings False ((activate campaign document now).on w).2 := by
  unfold activate
  rw [on_bind_ok (on_get w)]
  by_cases hs : w.status campaign = .canceled
  · rw [if_pos hs]
    exact .refl
  · rw [if_neg hs]
    cases ha : w.flows.activate (Uuid.ofNat w.nextId) campaign document now with
    | error v => exact .refl
    | ok stored =>
      obtain ⟨flows, g⟩ := stored
      exact (Posting.activated (w.nextId + 1) ha hfresh).single

/-! ## Events and upkeep -/

/-- An event whose key was let in before is not let in. -/
theorem on_receive_seen {e : Engagement} {w : World} {a : Admission}
    (ha : w.seen.table.find? e.key = some a) (now : Instant) :
    (receive e now).on w = (.ok false, w) := by
  rw [receive, on_bind_ok (on_get w), SeenKeys.receive_eq_none_iff.2 ⟨a, ha⟩]
  rfl

theorem receive_posts {e : Engagement} : (receive e now).Keeps (Postings False) := by
  refine .get fun w => ?_
  cases hs : w.seen.receive e.key now with
  | none => exact .refl
  | some seen => exact (Posting.received hs).single

theorem settle_posts {k : String} : (settle k).Keeps (Postings False) := by
  refine .get fun w => ?_
  cases ha : w.seen.table.find? k with
  | none =>
    have hsettle : w.seen.settle k = (w.seen, none) := by simp [SeenKeys.settle, ha]
    rw [hsettle]
    exact .refl
  | some a =>
    have hsettle : w.seen.settle k = ((w.seen.settle k).1, some a.time) := by
      simp [SeenKeys.settle, ha]
    rw [hsettle]
    exact (Posting.settled ha).single

theorem count_posts {e : Engagement} : (apply (·.count e none now)).Keeps (Postings False) :=
  .apply fun w => count_postings e w none now

theorem ingestHalting_posts {e : Engagement} : (ingestHalting e now).Keeps (Postings False) :=
  .ingestHalting receive_posts count_posts (fun _ => cancel_posts) settle_posts

theorem prune_posts {ttlHours : UInt64} : (prune ttlHours now).Keeps (Postings True) :=
  Keeps.bind (.need _ _) fun _ => Keeps.bind (.need _ _) fun cutoff => .get fun _ =>
    (Posting.pruned cutoff trivial).single

/-! ## New cursors -/

theorem addLead_posts {campaign : Uuid} {lead : Lead} :
    (Engine.addLead campaign lead now).Keeps (Postings False) := by
  refine .get fun w => ?_
  by_cases hs : (w.status campaign).halts = true
  · rw [if_pos hs]
    exact .refl
  rw [if_neg hs]
  cases hg : w.flows.active? campaign with
  | none => exact .refl
  | some g =>
    rw [on_bind_ok (on_need_some _ g w)]
    dsimp only
    cases hi : w.cursors.insert (Engine.newCursor (Uuid.ofNat w.nextId) g campaign lead.id now) with
    | error x => exact .refl
    | ok cursors =>
      obtain ⟨hn, rfl⟩ := CursorStore.insert_eq_ok_iff.1 hi
      exact (Posting.enrolled (Uuid.ofNat w.nextId) now (w.nextId + 1) hg hn).single.trans
        (told_report _ _ _ _ _).single

end Change

end MailCampaign
