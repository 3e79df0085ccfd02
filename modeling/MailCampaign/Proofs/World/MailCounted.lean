import MailCampaign.Proofs.World.Moves
import MailCampaign.Proofs.World.Unmailed

/-!
# A mail in the books

After a mail was sent its campaign counts it, its cursor counts it, and its cursor leaves the step with
a line of history. A cursor that ended while the mail was out is left as it is: its campaign alone
counts the mail. This holds when the key for counting the mail was not taken before.
-/

namespace MailCampaign

/-- The key under which a mail of an id is counted. -/
def sentKey (id : String) : String := id ++ ":" ++ EngagementKind.sent.name

theorem sentKey_inj {a b : String} (h : sentKey a = sentKey b) : a = b := by
  simpa [sentKey, ← String.toList_inj, String.toList_append] using h

/-- Counting a mail that was sent adds it to the totals of its campaign. -/
theorem Statistics.sent_of_count {s t : Statistics} {e : Engagement} {received : Instant}
    (h : s.count e received = some t) (he : e.kind = .sent) (campaign : Uuid) :
    (t.of campaign).sent = (s.of campaign).sent + if campaign = e.campaignId then 1 else 0 := by
  rw [of_count h]
  by_cases hc : campaign = e.campaignId
  · rw [if_pos hc, if_pos hc, hc, he]
    rfl
  · rw [if_neg hc, if_neg hc, UInt64.add_zero]

namespace World

/-- A mail was counted for the stored cursor of a key. -/
structure MailCounted (key : CursorKey) (c : Cursor) (id : String) (w v : World) : Prop where
  others : ∀ k, k ≠ key → v.cursors.find? k = w.cursors.find? k
  cursor : ∃ d, v.cursors.find? key = some d ∧ d.campaignId = c.campaignId ∧
    (c.state.terminal = true → d = c) ∧ (c.state.terminal = false →
      d.sents = c.sents + 1 ∧ d.counters.emailsSent = c.counters.emailsSent + 1)
  totals : ∀ campaign, (v.statistics.of campaign).sent =
    (w.statistics.of campaign).sent + if campaign = c.campaignId then 1 else 0
  applied : ∀ k, (v.statistics.applied.find? k).isSome = true →
    k = sentKey id ∨ (w.statistics.applied.find? k).isSome = true

variable {w v u : World} {key : CursorKey} {c d : Cursor} {id : String}

/-- What follows in which no mail is told of, and no cursor changes. -/
theorem MailCounted.tail (h : w.MailCounted key c id v) (hu : v.Unmailed (fun _ => False) u)
    (hcursors : u.cursors = v.cursors) : w.MailCounted key c id u where
  others := hcursors ▸ h.others
  cursor := hcursors ▸ h.cursor
  totals := fun campaign => (hu.totals campaign).trans (h.totals campaign)
  applied := fun k hk => h.applied k ((hu.applied k hk).resolve_left fun h => h)

/-- An event of its campaign is counted on a cursor that runs. -/
theorem counted_of_running {e : Engagement} (hc : c.campaignId = e.campaignId)
    (hr : c.state.terminal = false) :
    counted e c = { c with counters := c.counters.count e.kind } := by
  unfold counted
  rw [hc, hr, bne_self_eq_false, Bool.or_false, if_neg Bool.false_ne_true]

/-- Counting an event under a new key changes the statistics and the cursor it is counted on. -/
theorem count_one {e : Engagement} {received : Instant} (hc : w.cursors.find? key = some c)
    (hnew : w.statistics.applied.find? e.key = none) :
    ∃ s, w.statistics.count e received = some s ∧
      (w.count e (some key) received).statistics = s ∧
      ∀ k, (w.count e (some key) received).cursors.find? k =
        if k = key then some (counted e c) else w.cursors.find? k := by
  have hkey : (counted e c).key = key :=
    (c.sameLead_counted e).key.trans (CursorStore.key_eq_of_find? hc)
  cases hs : w.statistics.count e received with
  | none =>
    obtain ⟨t, ht⟩ := Statistics.count_eq_none_iff.1 hs
    rw [hnew] at ht
    cases ht
  | some s =>
    let v := { w with statistics := s }.journalTotals e.campaignId (some (e.key, received))
      (if w.statistics.isFirst e then some (e.leadId, e.kind) else none)
    have hcount : w.count e (some key) received = v.storeCursor c (counted e c) := by
      have htotals : w.countTotals e received = some v := by
        unfold countTotals
        rw [hs]
        rfl
      have hfind : v.cursors.find? key = some c := hc
      unfold count
      rw [htotals]
      show countOnCursor e v key = _
      unfold countOnCursor
      rw [hfind]
    refine ⟨s, rfl, ?_, fun k => ?_⟩
    · rw [hcount]
      rfl
    · rw [hcount, find?_storeCursor, hkey]
      rfl

/-- The same mails went out. -/
def SameMails (w v : World) : Prop := v.submissions = w.submissions

instance : IsPreorder World SameMails where
  refl := fun _ => rfl
  trans := fun _ _ _ h h' => Eq.trans h' h

theorem sameMails_count (w : World) (e : Engagement) (only : Option CursorKey)
    (received : Instant) : w.SameMails (w.count e only received) := by
  have hone : ∀ (w : World) (key : CursorKey), w.SameMails (countOnCursor e w key) := by
    intro w key
    unfold countOnCursor
    split <;> rfl
  have hall : ∀ (l : List CursorKey) (w : World), w.SameMails (l.foldl (countOnCursor e) w) := by
    intro l
    induction l with
    | nil => exact fun w => refl_of SameMails w
    | cons key rest ih => exact fun w => trans_of SameMails (hone w key) (ih _)
  unfold count
  split
  · exact refl_of SameMails w
  · next v hv =>
    obtain ⟨s, -, rfl⟩ := Option.map_eq_some_iff.1 hv
    exact hall _ _

end World

namespace Change

open World

variable {w v : World} {c b : Cursor} {g : Graph} {node : Node} {now : Instant} {id : String}

/-- A cursor whose mail may be sent leaves the step with a line of history, whether or not another
step follows. -/
theorem advance_leaves (g : Graph) (branch : Branch) (outcome : String)
    (hb : v.cursors.find? c.key = some b) (hn : b.nodeId = node.id) (hs : b.Sendable now) :
    ∃ d, d.key = b.key ∧ d.campaignId = b.campaignId ∧ d.counters = b.counters ∧
      d.history = b.history ++ [⟨b.nodeId, node.action.name, outcome, now⟩] ∧
      (v.storeCursor b d).Unmailed (fun _ => False) ((advance g c node branch outcome now).on v).2 ∧
      ((advance g c node branch outcome now).on v).2.cursors = (v.storeCursor b d).cursors := by
  have hactive : b.state.mayBecome .active = true := by
    rcases hs with h | ⟨h, -⟩
    · exact mayBecome_of_entering h nofun
    · rw [h]; rfl
  have hcompleted : b.state.mayBecome .completed = true := by
    rcases hs with h | ⟨h, -⟩
    · exact mayBecome_of_entering h nofun
    · rw [h]; rfl
  unfold advance
  cases g.next? node.id branch with
  | some next =>
    let d := (b.log node.action.name outcome .active now).moveTo next.id
    have hmove : (move c.key node .active outcome now fun c => c.moveTo next.id).on v =
        (.ok d, v.storeCursor b d) := move_ok _ hb hn hactive
    refine ⟨d, rfl, rfl, rfl, rfl, ?_⟩
    dsimp only
    rw [on_bind_ok (discard_ok hmove)]
    exact ⟨.refl _, rfl⟩
  | none =>
    let d := (b.log node.action.name outcome .completed now).release
    have hmove : (move c.key node .completed outcome now Cursor.release).on v =
        (.ok d, v.storeCursor b d) := move_ok _ hb hn hcompleted
    refine ⟨d, rfl, rfl, rfl, rfl, ?_⟩
    dsimp only
    rw [on_bind_ok (discard_ok hmove)]
    exact ⟨finish_unmailed _, (booked_finish _ _ _ _ _ _).cursors⟩

/-- A cursor that ended is not moved. -/
theorem advance_ended {branch : Branch} {outcome : String} (hb : v.cursors.find? c.key = some b)
    (ht : b.state.terminal = true) :
    ((advance g c node branch outcome now).on v).2 = v.storeCursor b b := by
  unfold advance
  cases g.next? node.id branch with
  | some next =>
    have hmove : ∃ x, (move c.key node .active outcome now fun c => c.moveTo next.id).on v =
        (.error (.clash x), v.storeCursor b b) :=
      move_clash _ hb (CursorState.mayBecome_of_terminal ht _)
    obtain ⟨x, hx⟩ := hmove
    exact congrArg Prod.snd (on_bind_error (discard_error hx))
  | none =>
    have hmove : ∃ x, (move c.key node .completed outcome now Cursor.release).on v =
        (.error (.clash x), v.storeCursor b b) :=
      move_clash _ hb (CursorState.mayBecome_of_terminal ht _)
    obtain ⟨x, hx⟩ := hmove
    exact congrArg Prod.snd (on_bind_error (discard_error hx))

/-- No mail goes out while a sent one is counted. -/
theorem mailSent_sameMails : (mailSent g c node id now).Keeps SameMails := by
  have hmove : ∀ state f, (move c.key node state "sent" now f).Keeps SameMails := by
    intro state f w
    unfold move revise
    cases hc : w.cursors.find? c.key with
    | none => rw [on_bind_error (on_cursor_none hc)]; rfl
    | some b =>
      rw [on_bind_ok (on_cursor_some hc)]
      split <;> rfl
  have hfinish : (finish c node.id .completed .completed now).Keeps SameMails := fun w =>
    (finish_unmailed w : w.Unmailed (fun _ => False) _).submissions
  have hbook : (apply fun w => (w.count (sentEvent c id now) (some c.key) now).report c
      (.mailSent id) node.id now).Keeps SameMails := fun w =>
    sameMails_count w (sentEvent c id now) (some c.key) now
  refine hbook.bind fun _ => ?_
  unfold advance
  split
  · exact (hmove _ _).discard.bind fun _ => .pure _
  · exact (hmove _ _).discard.bind fun _ => hfinish

/-- No mail goes out after the answer to one. -/
theorem settleMail_sameMails (policy : RetryPolicy) (g : Graph) (c : Cursor) (node : Node)
    (now : Instant) (result : Except SendFault String) :
    (settleMail policy g c node now result).Keeps SameMails := by
  cases result with
  | ok id => exact mailSent_sameMails
  | error fault => exact fun w => (settleMail_unmailed w : w.Unmailed (fun _ => False) _).submissions

/-- **A mail is counted.** The stored cursor is the one that was read before the mail, or it ended
meanwhile. -/
theorem mailSent_counted (hb : w.cursors.find? c.key = some b) (hcampaign : b.campaignId = c.campaignId)
    (hrun : b.state.terminal = false → b.nodeId = node.id ∧ b.Sendable now)
    (hnew : w.statistics.applied.find? (sentKey id) = none) :
    w.MailCounted c.key b id ((mailSent g c node id now).on w).2 := by
  let e := sentEvent c id now
  let v := (w.count e (some c.key) now).report c (.mailSent id) node.id now
  have hcount : ∃ s, w.statistics.count e now = some s ∧ v.statistics = s ∧
      ∀ k, v.cursors.find? k = if k = c.key then some (counted e b) else w.cursors.find? k :=
    count_one hb hnew
  obtain ⟨s, hs, hstat, hfind⟩ := hcount
  have hkey : b.key = c.key := CursorStore.key_eq_of_find? hb
  have hstored : v.cursors.find? c.key = some (counted e b) := by rw [hfind, if_pos rfl]
  have hbooks : ∀ d : Cursor, d.key = b.key → d.campaignId = b.campaignId →
      (b.state.terminal = true → d = b) → (b.state.terminal = false →
        d.sents = b.sents + 1 ∧ d.counters.emailsSent = b.counters.emailsSent + 1) →
      w.MailCounted c.key b id (v.storeCursor (counted e b) d) := by
    intro d hd hdc hended hran
    have hself : (v.storeCursor (counted e b) d).cursors.find? c.key = some d := by
      rw [find?_storeCursor, if_pos (by rw [hd, hkey])]
    refine ⟨fun k hk => ?_, ⟨d, hself, hdc, hended, hran⟩, fun campaign => ?_, fun k hk => ?_⟩
    · rw [find?_storeCursor, if_neg (by rw [hd, hkey]; exact hk), hfind, if_neg hk]
    · show (v.statistics.of campaign).sent = _
      rw [hstat, Statistics.sent_of_count hs rfl, hcampaign]
      rfl
    · change (v.statistics.applied.find? k).isSome = true at hk
      rw [hstat, Statistics.applied_count hs, Table.find?_insert] at hk
      split at hk
      · next hk' => exact .inl hk'
      · exact .inr hk
  show w.MailCounted c.key b id ((advance g c node .next "sent" now).on v).2
  cases ht : b.state.terminal with
  | true =>
    have hsame : counted e b = b := Cursor.counted_of_terminal ht
    rw [hsame] at hstored hbooks
    rw [advance_ended hstored ht]
    exact hbooks b rfl rfl (fun _ => rfl) fun h => by rw [ht] at h; cases h
  | false =>
    obtain ⟨hn, hs⟩ := hrun ht
    have hcounted : counted e b = { b with counters := b.counters.count .sent } :=
      counted_of_running hcampaign ht
    rw [hcounted] at hstored hbooks
    obtain ⟨d, hd, hdc, hcounters, hline, hquiet, hcursors⟩ :=
      advance_leaves g .next "sent" hstored hn hs
    refine (hbooks d hd hdc (fun h => ?_) fun _ => ⟨?_, ?_⟩).tail hquiet hcursors
    · rw [ht] at h
      cases h
    · unfold Cursor.sents
      rw [hline, List.countP_append]
      rfl
    · rw [hcounters]
      rfl

end Change

end MailCampaign
