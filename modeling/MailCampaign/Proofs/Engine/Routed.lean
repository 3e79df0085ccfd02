import MailCampaign.Proofs.Engine.Outcome
import MailCampaign.Proofs.Engine.Tried

/-!
# What becomes of routed events

An event that is routed finds cursors that wait at conditions. In a sound world, with a mailer that lets
nothing happen while it is at work:

1. The first round of the dispatch answers the condition, with a line of history that says on which
   branch, or the cursor waits on (`dispatchOnce_event`).
2. The rounds that follow an answer add to the history, and they leave the cursor waiting or at its end,
   as the outcome tells (`dispatch_routed`).
3. The cursors of a list are dispatched one after another and do not meet. So those that are counted as
   resolved are those that ended (`routeTo_routed`).
4. Events of halted campaigns are not routed, and whoever waits there goes on waiting (`route_routed`).
-/

namespace MailCampaign

/-- The number of lines of a history that tell of the answer of a condition. -/
def Cursor.answers (c : Cursor) : Nat :=
  c.history.countP fun s => s.outcome == "yes" || s.outcome == "no"

/-- What a routed event makes of a cursor that waits at a condition: it waits on, or the condition was
answered and the cursor is not about to run a step. -/
inductive Cursor.AfterEvent (c d : Cursor) : Prop
  | waits : d.history = c.history → d.state = .waitingCondition → AfterEvent c d
  | answered : c.answers < d.answers → d.state.entering = false → AfterEvent c d

variable {σ : Type} {svc : Services σ} {s t : Session σ} {c d : Cursor} {e : Engagement} {now : Instant}
  {key : CursorKey} {keys : List CursorKey}

theorem Cursor.answers_le (h : c.history <+: d.history) : c.answers ≤ d.answers :=
  h.sublist.countP_le

theorem Cursor.answers_line {line : Step} (h : d.history = c.history ++ [line])
    (ho : (line.outcome == "yes" || line.outcome == "no") = true) : d.answers = c.answers + 1 := by
  rw [answers, h, List.countP_append, List.countP_singleton, if_pos ho]
  rfl

namespace Engine

/-- The first round of an event that finds a cursor at a condition: the condition is answered and the
cursor moves on, or it waits on. -/
theorem dispatchOnce_event (svc : Services σ) (e : Engagement) (now : Instant) (hs : s.world.Sound)
    (hc : s.world.cursors.find? c.key = some c) (hwaits : c.state = .waitingCondition)
    (hst : (s.world.status c.campaignId).halts = false) :
    ∃ o t d, (dispatchOnce svc c.key (.event e) now).on s = (.ok o, t) ∧
      t.world.cursors.find? c.key = some d ∧
      ((o = .parked ∨ o = .ignored) ∧ d.history = c.history ∧ d.state = .waitingCondition ∨
        o = .moved ∧ d.answers = c.answers + 1 ∧ d.state = .active) := by
  obtain ⟨g, node, hat, hfits, -⟩ := (hs c.key c hc).placed
  unfold Cursor.Fits at hfits
  rw [hwaits] at hfits
  obtain ⟨k, win, ha, hwin, hfit⟩ := hfits
  have hr : c.state.terminal = false := by rw [hwaits]; rfl
  have hhere : win.nodeId = node.id := hfit.nodeId.trans hat.nodeId
  rw [dispatchOnce_eq_execute hc hat.version hst, on_execute hc hr hat.step, on_ignoreClash]
  unfold perform
  rw [ha]
  dsimp only
  rw [if_pos hwaits, on_lift]
  by_cases hears : k.Hears c.campaignId e
  · let noted : Cursor := { c with window := some (Change.withEvent e now win) }
    have hnoted : (s.world.storeCursor c noted).cursors.find? noted.key = some noted :=
      World.find?_storeCursor_self hc rfl
    have hwindow : noted.window.filter (fun w => w.nodeId == node.id) =
        some (Change.withEvent e now win) := by
      exact (Option.filter_some ..).trans (if_pos (beq_iff_eq.2 hhere))
    rw [observe_heard hears hc hwaits hwin hhere]
    unfold Change.resolve
    rw [hwindow]
    dsimp only
    cases hv : Change.decisive k .event (Verdict.ofWindow k (Change.withEvent e now win) now) with
    | none => exact ⟨.parked, _, noted, rfl, hnoted, .inl ⟨.inl rfl, rfl, hwaits⟩⟩
    | some branch =>
      have hbranch := Verdict.branch?_ne_next (Change.branch?_of_decisive hv)
      obtain ⟨next, hnext⟩ := Graph.next?_of_condition hat.step ha hbranch
      have hmay := Change.mayBecome_of_running (c := noted) hr (.inl rfl)
      let left := (noted.log node.action.name branch.name .active now).moveTo next.id
      have hadvance : (Change.advance g noted node branch branch.name now).on
          (s.world.storeCursor c noted) =
            (.ok .moved, (s.world.storeCursor c noted).storeCursor noted left) := by
        unfold Change.advance
        rw [hnext]
        exact Change.on_bind_ok (Change.discard_ok (Change.move_ok _ hnoted hat.nodeId hmay))
      dsimp only
      rw [Change.on_bind_ok hadvance]
      have hlog : left.history = c.history ++ [⟨c.nodeId, node.action.name, branch.name, now⟩] := rfl
      have hanswer : left.answers = c.answers + 1 := by
        refine Cursor.answers_line hlog ?_
        cases branch with
        | next => exact absurd rfl hbranch
        | _ => rfl
      exact ⟨.moved, _, left, rfl, World.find?_storeCursor_self hnoted rfl, .inr ⟨rfl, hanswer, rfl⟩⟩
  · rw [observe_unheard hears]
    exact ⟨.ignored, s, c, rfl, hc, .inl ⟨.inr rfl, rfl, hwaits⟩⟩

/-- The dispatch of an event for a cursor that waits at a condition. -/
theorem dispatch_routed (hq : svc.mailer.Quiet) (hs : s.world.Sound)
    (hc : s.world.cursors.find? c.key = some c) (hwaits : c.state = .waitingCondition)
    (hst : (s.world.status c.campaignId).halts = false) (e : Engagement) (now : Instant) :
    ∃ r t, (dispatch svc c.key (.event e) now).on s = (r, t) ∧ (r = .error .outOfRange ∨
      ∃ o d, r = .ok o ∧ t.world.cursors.find? c.key = some d ∧ c.AfterEvent d ∧
        resolves o = d.state.terminal) := by
  obtain ⟨g, hg⟩ := hs.version hc
  have hdispatch : ∃ rounds r t, Rounds svc c.key now (.event e) s rounds r t ∧
    (dispatch svc c.key (.event e) now).on s = (r, t) ∧ _ := dispatch_rounds (.event e) hc hg
  obtain ⟨rounds, r, t, hrounds, hon, -, -, -, hlands⟩ := hdispatch
  refine ⟨r, t, hon, ?_⟩
  obtain ⟨o, u, d, hfirst, hd, hcase⟩ := dispatchOnce_event svc e now hs hc hwaits hst
  cases hrounds with
  | last hlast hne =>
    obtain ⟨rfl, rfl⟩ := Prod.mk.inj (hfirst.symm.trans hlast)
    rcases hcase with ⟨ho, hhistory, hstate⟩ | ⟨rfl, -⟩
    · refine .inr ⟨o, d, rfl, hd, .waits hhistory hstate, ?_⟩
      rw [hstate]
      rcases ho with rfl | rfl <;> rfl
    · exact absurd rfl hne
  | again hagain hrest =>
    obtain ⟨ho, rfl⟩ := Prod.mk.inj (hfirst.symm.trans hagain)
    obtain rfl := Except.ok.inj ho
    rcases hcase with ⟨hstopped | hstopped, -⟩ | ⟨-, hanswer, hactive⟩
    · cases hstopped
    · cases hstopped
    have hready : d.Ready now .enter := by rw [Cursor.Ready, hactive]; rfl
    have hsound := ((dispatchOnce_follows c.key (.event e) now).trail hfirst).course.sound hs
    have hfired : d.Fired now False r t.world := hrest.fired hq hsound False.elim hd hready
    cases hfired with
    | outOfRange => exact .inl rfl
    | @went o v b ho hb hfurther =>
      obtain ⟨b', hb', hfits⟩ := hrest.shows o rfl ho
      rw [CursorStore.key_eq_of_find? hd] at hb
      obtain rfl : b = b' := Option.some.inj (hb.symm.trans hb')
      have hrests : b.state.entering = false := by
        refine Bool.eq_false_iff.2 fun he => ?_
        have hinRange : (.ok o : Except Fault Outcome) ≠ .error .outOfRange := by
          intro h
          cases h
        have hleft := (hlands.rested hinRange b hb he).2
        rw [hwaits] at hleft
        cases hleft
      have hmore := Cursor.answers_le hfurther.prefix
      refine .inr ⟨o, b, rfl, hb, .answered (by omega) hrests, ?_⟩
      cases o with
      | moved =>
        rw [show b.state = .active from hfits] at hrests
        cases hrests
      | parked =>
        refine (Bool.eq_false_iff.2 fun hterminal => ?_).symm
        rw [Outcome.Fits, CursorState.waiting_of_terminal hterminal] at hfits
        cases hfits
      | finished last => exact (hfits.1 ▸ hfits.2).symm
      | ignored => exact absurd rfl ho

/-! ## Lists of cursors -/

/-- Sending an event to some cursors that wait at conditions. What is counted are those that ended. -/
theorem routeTo_routed (hq : svc.mailer.Quiet) (hnodup : keys.Nodup) (hs : s.world.Sound)
    (hkeys : ∀ key ∈ keys, ∃ c, s.world.cursors.find? key = some c ∧ c.state = .waitingCondition ∧
      (s.world.status c.campaignId).halts = false) (e : Engagement) (now : Instant) :
    ∃ r t, (routeTo svc e now keys).on s = (r, t) ∧
      (∀ key, key ∉ keys → t.world.cursors.find? key = s.world.cursors.find? key) ∧
      (r = .error .outOfRange ∨
        r = .ok (keys.countP fun key => (t.world.cursors.find? key).any (·.state.terminal)) ∧
        ∀ key ∈ keys, ∀ c, s.world.cursors.find? key = some c →
          ∃ d, t.world.cursors.find? key = some d ∧ c.AfterEvent d) := by
  induction keys generalizing s with
  | nil => exact ⟨_, s, rfl, fun _ _ => rfl, .inr ⟨rfl, fun _ h => absurd h List.not_mem_nil⟩⟩
  | cons key rest ih =>
    obtain ⟨hnot, hrest⟩ := List.nodup_cons.1 hnodup
    obtain ⟨c, hc, hwaits, hst⟩ := hkeys key List.mem_cons_self
    obtain rfl := CursorStore.key_eq_of_find? hc
    obtain ⟨r, u, hon, hcase⟩ := dispatch_routed hq hs hc hwaits hst e now
    have hconfined : (dispatch svc c.key (.event e) now).Keeps
        (Session.Worlds (World.Confined c.key c.campaignId)) := dispatch_confined hq
    obtain ⟨hbeside, -⟩ := hconfined s c hc rfl
    rw [hon] at hbeside
    unfold routeTo
    rcases hcase with rfl | ⟨o, d, rfl, hd, hafter, ho⟩
    · refine ⟨_, u, on_bind_error hon, fun k hk => ?_, .inl rfl⟩
      exact hbeside.cursors k fun h => hk (h ▸ List.mem_cons_self)
    have hsame : ∀ k ∈ rest, u.world.cursors.find? k = s.world.cursors.find? k := fun k hk =>
      hbeside.cursors k fun h => hnot (h ▸ hk)
    have hsound := ((dispatch_follows c.key (.event e) now).trail hon).course.sound hs
    have hrestkeys : ∀ k ∈ rest, ∃ c, u.world.cursors.find? k = some c ∧
        c.state = .waitingCondition ∧ (u.world.status c.campaignId).halts = false := by
      intro k hk
      obtain ⟨b, hb, hbwaits, hbst⟩ := hkeys k (List.mem_cons_of_mem _ hk)
      exact ⟨b, (hsame k hk).trans hb, hbwaits, by rwa [World.status, hbeside.campaigns]⟩
    obtain ⟨r, t, hon', hothers, hcase⟩ := ih hrest hsound hrestkeys
    have hkept : ∀ k, k ∉ c.key :: rest → t.world.cursors.find? k = s.world.cursors.find? k := by
      intro k hk
      rw [hothers k fun h => hk (List.mem_cons_of_mem _ h)]
      exact hbeside.cursors k fun h => hk (h ▸ List.mem_cons_self)
    have hown : t.world.cursors.find? c.key = some d := (hothers c.key hnot).trans hd
    rcases hcase with rfl | ⟨rfl, hall⟩
    · exact ⟨_, t, (on_bind_ok hon).trans (on_bind_error hon'), hkept, .inl rfl⟩
    · refine ⟨_, t, (on_bind_ok hon).trans (on_bind_ok hon'), hkept, .inr ⟨?_, fun k hk b hb => ?_⟩⟩
      · rw [List.countP_cons, hown, Option.any_some, ho]
      · rcases List.mem_cons.1 hk with rfl | hk
        · obtain rfl : c = b := Option.some.inj (hc.symm.trans hb)
          exact ⟨d, hown, hafter⟩
        · exact hall k hk b ((hsame k hk).trans hb)

end Engine

/-! ## Reports -/

/-- Whether a cursor waits at a condition as an event of its lead in its campaign comes. -/
def Cursor.awaits (c : Cursor) (e : Engagement) : Bool :=
  c.leadId == e.leadId && (c.campaignId == e.campaignId && c.state == .waitingCondition)

/-- Whether a world knows of an answer of a condition that a cursor does not know of. -/
def World.answered (w : World) (c : Cursor) : Bool :=
  (w.cursors.find? c.key).any fun d => c.answers < d.answers

/-- Whether a cursor has ended in a world. -/
def World.ended (w : World) (c : Cursor) : Bool := (w.cursors.find? c.key).any (·.state.terminal)

namespace Engine

/-- The report of an event that does not stop its lead, in view of the world in which it came and of the
one that it brought about. -/
def routedReport (e : Engagement) (w v : World) : IngestReport where
  key := e.key
  routed := if (w.status e.campaignId).halts then 0 else w.cursors.all.countP (·.awaits e)
  resolved := w.cursors.all.countP fun c => c.awaits e && v.ended c

theorem mem_awaiting {w : World} (hw : w.cursors.Indexed) (hc : w.cursors.find? c.key = some c)
    (h : c.awaits e = true) : c.key ∈ w.cursors.awaiting e := by
  rw [Cursor.awaits, Bool.and_eq_true, beq_iff_eq] at h
  refine List.mem_filter.2 ⟨(hw.mem_ofLead _ _).2 ⟨h.1, by rw [hc]; rfl⟩, ?_⟩
  rw [hc]
  exact h.2

/-- Routing an event that was counted. -/
theorem route_routed {w : World} (hq : svc.mailer.Quiet) (hw : w.cursors.Indexed)
    (hcounted : s.world = w.count e none now) (hs : s.world.Sound) :
    ∃ r t, (route svc e now).on s = (r, t) ∧ (r = .error .outOfRange ∨
      r = .ok (routedReport e w t.world) ∧
      ∀ c, w.cursors.find? c.key = some c → c.awaits e = true →
        ∃ d, t.world.cursors.find? c.key = some d ∧ c.AfterEvent d) := by
  have hkeys : s.world.cursors.awaiting e = w.cursors.awaiting e := by rw [hcounted, awaiting_count]
  have hfound : ∀ {key c}, w.cursors.find? key = some c → ∃ d, s.world.cursors.find? key = some d ∧
      d = { c with counters := d.counters } := by
    intro key c hc
    obtain ⟨d, hd, hsame, -⟩ := World.find?_count_some hw hc e now
    exact ⟨d, hcounted ▸ hd, hsame⟩
  have hstatus : s.world.status e.campaignId = w.status e.campaignId := by
    rw [World.status, World.status, hcounted, (World.count_keeps w e none now).2.2.1]
  unfold route
  rw [on_bind_ok (on_world s), hstatus, hkeys]
  cases hst : (w.status e.campaignId).halts with
  | true =>
    -- Nothing is routed, so whoever waits goes on waiting.
    have hwaits : ∀ c, w.cursors.find? c.key = some c → c.awaits e = true →
        ∃ d, s.world.cursors.find? c.key = some d ∧ d.history = c.history ∧
          d.state = .waitingCondition := by
      intro c hc hawaits
      obtain ⟨d, hd, hsame⟩ := hfound hc
      simp only [Cursor.awaits, Bool.and_eq_true, beq_iff_eq] at hawaits
      exact ⟨d, hd, by rw [hsame], by rw [hsame]; exact hawaits.2.2⟩
    have hnone : (w.cursors.all.countP fun c => c.awaits e && s.world.ended c) = 0 := by
      refine List.countP_eq_zero.2 fun c hc h => ?_
      obtain ⟨hawaits, hended⟩ := Bool.and_eq_true_iff.1 h
      obtain ⟨d, hd, -, hstate⟩ := hwaits c (CursorStore.mem_all.1 hc) hawaits
      rw [World.ended, hd, Option.any_some, hstate] at hended
      cases hended
    rw [if_pos rfl]
    refine ⟨_, s, rfl, .inr ⟨?_, fun c hc hawaits => ?_⟩⟩
    · rw [routedReport, if_pos hst, hnone]
    · obtain ⟨d, hd, hhistory, hstate⟩ := hwaits c hc hawaits
      exact ⟨d, hd, .waits hhistory hstate⟩
  | false =>
    have hwaits : ∀ key ∈ w.cursors.awaiting e, ∃ c, s.world.cursors.find? key = some c ∧
        c.state = .waitingCondition ∧ (s.world.status c.campaignId).halts = false := by
      intro key hkey
      obtain ⟨c, hc, -, hcampaign, hwaits⟩ := awaits_of_mem hw hkey
      obtain ⟨d, hd, hsame⟩ := hfound hc
      refine ⟨d, hd, by rw [hsame]; exact hwaits, ?_⟩
      rw [show d.campaignId = e.campaignId by rw [hsame]; exact hcampaign, hstatus, hst]
    have hnodup : (w.cursors.awaiting e).Nodup := (hw.nodup e.leadId).filter _
    obtain ⟨r, t, hon, -, hcase⟩ := routeTo_routed hq hnodup hs hwaits e now
    rw [if_neg Bool.false_ne_true]
    rcases hcase with rfl | ⟨rfl, hall⟩
    · exact ⟨_, t, on_bind_error hon, .inl rfl⟩
    refine ⟨_, t, on_bind_ok hon, .inr ⟨?_, fun c hc hawaits => ?_⟩⟩
    · have hrouted : (w.cursors.awaiting e).length = w.cursors.all.countP (·.awaits e) :=
        hw.length_ofLeadWhere e.leadId _
      have hresolved : (w.cursors.awaiting e).countP (fun key =>
          (t.world.cursors.find? key).any (·.state.terminal)) =
          w.cursors.all.countP fun c => c.awaits e && t.world.ended c :=
        hw.countP_ofLeadWhere e.leadId _ _
      rw [hrouted, hresolved, routedReport, if_neg (by rw [hst]; exact Bool.false_ne_true)]
    · obtain ⟨d, hd, hsame⟩ := hfound hc
      obtain ⟨b, hb, hafter⟩ := hall c.key (mem_awaiting hw hc hawaits) d hd
      refine ⟨b, hb, ?_⟩
      rw [hsame] at hafter
      cases hafter with
      | waits hhistory hstate => exact .waits hhistory hstate
      | answered hanswers hrests => exact .answered hanswers hrests

/-- An event that is let in and does not stop its lead has a report, unless a time is out of range. -/
theorem ingest_routed (hq : svc.mailer.Quiet) (hw : s.world.cursors.Indexed) (hs : s.world.Sound)
    (hfresh : s.world.seen.table.find? e.key = none) (hkind : e.haltsLead = false) (now : Instant) :
    ∃ r t, (ingest svc e now).on s = (r, t) ∧ (r = .error .outOfRange ∨
      r = .ok (routedReport e s.world t.world) ∧
      ∀ c, s.world.cursors.find? c.key = some c → c.awaits e = true →
        ∃ d, t.world.cursors.find? c.key = some d ∧ c.AfterEvent d) := by
  obtain ⟨seen, hingest⟩ := on_ingest_routed hfresh hkind svc now
  let w : World := { s.world with seen }
  have hcourse : s.world.Course svc.retry .idle (w.count e none now) :=
    (World.booked_seen s.world seen).course.trans (World.count_course w e none now)
  obtain ⟨r, t, hon, hcase⟩ := route_routed (s := { s with world := w.count e none now }) (w := w)
    hq hw rfl (hcourse.sound hs)
  rw [hingest, hon]
  rcases hcase with rfl | ⟨rfl, hall⟩
  · exact ⟨_, t, rfl, .inl rfl⟩
  · obtain ⟨seen', trace, hsettled, -⟩ := Change.settle_eq e.key t.world
    refine ⟨_, _, rfl, .inr ⟨?_, ?_⟩⟩ <;> rw [hsettled]
    · rfl
    · exact hall

end Engine

end MailCampaign
