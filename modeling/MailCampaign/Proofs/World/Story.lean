import MailCampaign.Proofs.World.Unmailed

/-!
# The stories of cursors

The story of a cursor is its history and its state, with the activities that tell of it. A story goes
on in three ways: the lead is enrolled; the cursor gets a line of history, with an activity if the line
is a retry, a delay or an answer, and another one if the cursor ended with it; or a mail that was
accepted is told of (`Story.Next`). So the activities are those that the history and the state call for
(`Story.Faithful`), and mails are counted apart.
-/

namespace MailCampaign

/-- The activity that went out, if it is one. -/
def Effect.activity? : Effect → Option Activity
  | .activity a => some a
  | _ => none

namespace Milestone

/-- The state in which a cursor ended. -/
def end? : Milestone → Option CursorState
  | .goalReached => some .goalReached
  | .completed => some .completed
  | .failed _ => some .failed
  | .canceled _ => some .canceled
  | _ => none

/-- The outcome of the line of history that a milestone tells of. -/
def outcome? : Milestone → Option String
  | .mailFailed _ _ _ => some "send_retry"
  | .delayScheduled _ => some "delay_scheduled"
  | .conditionResolved branch _ => some branch.name
  | _ => none

end Milestone

/-- A line of history that is told of: the step, the outcome and the time. -/
abbrev Line := String × String × Instant

/-- The outcomes that are told of as such. -/
def Step.toldOutcomes : List String := ["send_retry", "delay_scheduled", "yes", "no"]

/-- The line, if it is told of as such. -/
def Step.line? (s : Step) : Option Line :=
  if s.outcome ∈ toldOutcomes then some (s.nodeId, s.outcome, s.time) else none

namespace Activity

/-- The cursor that an activity tells of. -/
def key (a : Activity) : CursorKey := ⟨a.flowId, a.leadId⟩

/-- The line of history that an activity tells of. -/
def line? (a : Activity) : Option Line := a.milestone.outcome?.map fun o => (a.nodeId, o, a.time)

/-- The state in which an activity says that the cursor ended. -/
def end? (a : Activity) : Option CursorState := a.milestone.end?

/-- An activity is of a kind. -/
def named (name : String) (a : Activity) : Bool := a.milestone.name == name

end Activity

/-- What is told when a cursor comes to a state: at most of a line of history, and of its end. -/
structure Records (line : Option Line) (state : CursorState) (marks : List Activity) : Prop where
  lines : marks.filterMap Activity.line? = line.toList
  ended : marks.filterMap Activity.end? = ((some state).filter CursorState.terminal).toList
  enrolled : marks.countP (Activity.named "lead_enrolled") = 0
  mails : marks.countP (Activity.named "email_sent") = 0

namespace Records

variable {state : CursorState} {marks : List Activity} {a : Activity}

/-- A cursor that runs on without a line that is told of. -/
theorem silent (h : state.terminal = false) : Records none state [] := by
  refine ⟨rfl, ?_, rfl, rfl⟩
  rw [Option.filter_some, if_neg (by rw [h]; exact Bool.false_ne_true)]
  rfl

/-- A cursor that ended without a line that is told of. -/
theorem ended_one (h : a.end? = some state) : Records none state [a] := by
  obtain ⟨milestone, campaignId, flowId, leadId, nodeId, time⟩ := a
  cases milestone <;> cases h <;> exact ⟨rfl, rfl, rfl, rfl⟩

/-- A line that is told of besides. -/
theorem line {outcome : String} (h : Records none state marks)
    (ho : a.milestone.outcome? = some outcome) :
    Records (some (a.nodeId, outcome, a.time)) state (a :: marks) := by
  obtain ⟨milestone, campaignId, flowId, leadId, nodeId, time⟩ := a
  have hlines := h.lines
  have hended := h.ended
  have henrolled := h.enrolled
  have hmails := h.mails
  cases milestone <;> cases ho <;> refine ⟨?_, hended, henrolled, hmails⟩ <;>
    exact congrArg (_ :: ·) hlines

end Records

/-! ## Stories -/

/-- What happened to a cursor and what was told of it, the latest first. Without a cursor there is no
state. -/
structure Story where
  history : List Step
  state : Option CursorState
  told : List Activity

namespace Story

/-- How a story goes on at an instant. -/
inductive Next (now : Instant) : Story → Story → Prop
  /-- The lead is enrolled. -/
  | enrolled {told : List Activity} {a : Activity} : a.milestone = .enrolled →
      Next now ⟨[], none, told⟩ ⟨[], some .pending, a :: told⟩
  /-- A cursor that runs gets a line of history. -/
  | line {h : List Step} {s : Step} {before after : CursorState} {told marks : List Activity} :
      before.terminal = false → s.time = now → Records s.line? after marks →
      Next now ⟨h, some before, told⟩ ⟨h ++ [s], some after, marks ++ told⟩
  /-- A mail was accepted. -/
  | mailed {h : List Step} {state : Option CursorState} {told : List Activity} {a : Activity}
      {id : String} : a.milestone = .mailSent id → Next now ⟨h, state, told⟩ ⟨h, state, a :: told⟩

/-- A story goes on at an instant in any number of ways. -/
abbrev Goes (now : Instant) : Story → Story → Prop := Relation.ReflTransGen (Next now)

/-- The activities are those that the history and the state call for. -/
structure Faithful (t : Story) : Prop where
  enrolled : t.told.countP (Activity.named "lead_enrolled") = t.state.toList.length
  ended : t.told.filterMap Activity.end? = (t.state.filter CursorState.terminal).toList
  lines : t.told.reverse.filterMap Activity.line? = t.history.filterMap Step.line?

variable {now : Instant} {t u : Story}

/-- What tells of no end and no line adds nothing to those. -/
theorem filterMap_cons_plain {a : Activity} (hend : a.milestone.end? = none)
    (hline : a.milestone.outcome? = none) (told : List Activity) :
    (a :: told).filterMap Activity.end? = told.filterMap Activity.end? ∧
      (a :: told).reverse.filterMap Activity.line? = told.reverse.filterMap Activity.line? := by
  have hnone : a.line? = none := by
    unfold Activity.line?
    rw [hline]
    rfl
  refine ⟨List.filterMap_cons_none hend, ?_⟩
  rw [List.reverse_cons, List.filterMap_append, List.filterMap_cons_none hnone]
  exact List.append_nil _

theorem Next.faithful (h : Next now t u) (ht : t.Faithful) : u.Faithful := by
  obtain ⟨henrolled, hended, hlines⟩ := ht
  cases h with
  | @enrolled told a ha =>
    have hname : a.named "lead_enrolled" = true := by
      unfold Activity.named
      rw [ha]
      rfl
    obtain ⟨hends, hrest⟩ := filterMap_cons_plain (a := a) (by rw [ha]; rfl) (by rw [ha]; rfl) told
    refine ⟨?_, hends.trans hended, hrest.trans hlines⟩
    rw [List.countP_cons_of_pos hname, henrolled]
    rfl
  | @line h s before after told marks hr _ hmarks =>
    refine ⟨?_, ?_, ?_⟩
    · rw [List.countP_append, hmarks.enrolled, henrolled]
      rfl
    · rw [List.filterMap_append, hmarks.ended, hended, Option.filter_some (a := before),
        if_neg (by rw [hr]; exact Bool.false_ne_true)]
      exact List.append_nil _
    · have hone : marks.reverse.filterMap Activity.line? = s.line?.toList := by
        rw [List.filterMap_reverse, hmarks.lines]
        cases s.line? <;> rfl
      rw [List.reverse_append, List.filterMap_append, List.filterMap_append, hlines, hone]
      cases hs : s.line? with
      | none => rw [List.filterMap_cons_none hs]; rfl
      | some l => rw [List.filterMap_cons_some hs]; rfl
  | @mailed h state told a id ha =>
    have hname : ¬ a.named "lead_enrolled" = true := by
      unfold Activity.named
      rw [ha]
      exact Bool.false_ne_true
    obtain ⟨hends, hrest⟩ := filterMap_cons_plain (a := a) (by rw [ha]; rfl) (by rw [ha]; rfl) told
    exact ⟨(List.countP_cons_of_neg hname).trans henrolled, hends.trans hended, hrest.trans hlines⟩

theorem Goes.faithful (h : Goes now t u) (ht : t.Faithful) : u.Faithful := by
  induction h with
  | refl => exact ht
  | tail _ hnext ih => exact hnext.faithful ih

/-- All that is added to the history is of the instant. -/
theorem Goes.history (h : Goes now t u) :
    ∃ l, u.history = t.history ++ l ∧ ∀ s ∈ l, s.time = now := by
  induction h with
  | refl => exact ⟨[], (List.append_nil _).symm, fun _ hs => absurd hs List.not_mem_nil⟩
  | tail _ hnext ih =>
    obtain ⟨l, hl, htimes⟩ := ih
    cases hnext with
    | enrolled => exact ⟨l, hl, htimes⟩
    | @line h s _ _ _ _ _ hs =>
      refine ⟨l ++ [s], ?_, List.forall_mem_append.2 ⟨htimes, List.forall_mem_singleton.2 hs⟩⟩
      rw [← List.append_assoc, ← hl]
    | mailed => exact ⟨l, hl, htimes⟩

/-- Every line that is told of has one of the outcomes that are. -/
theorem Faithful.mem_toldOutcomes (h : t.Faithful) {a : Activity} (ha : a ∈ t.told)
    {outcome : String} (ho : a.milestone.outcome? = some outcome) : outcome ∈ Step.toldOutcomes := by
  have hmem : (a.nodeId, outcome, a.time) ∈ t.told.reverse.filterMap Activity.line? :=
    List.mem_filterMap.2 ⟨a, List.mem_reverse.2 ha, by unfold Activity.line?; rw [ho]; rfl⟩
  rw [h.lines] at hmem
  obtain ⟨s, -, hs⟩ := List.mem_filterMap.1 hmem
  unfold Step.line? at hs
  split at hs
  · next hs' =>
    obtain ⟨-, hrest⟩ := Prod.mk.inj (Option.some.inj hs)
    exact (Prod.mk.inj hrest).1 ▸ hs'
  · cases hs

/-- There are as many activities of a kind as lines with the outcomes that it tells of. -/
theorem Faithful.tally_eq (h : t.Faithful) {name : String} {r : String → Bool}
    (hr : ∀ o, r o = true → o ∈ Step.toldOutcomes)
    (hm : ∀ m : Milestone, (∀ o, m.outcome? = some o → o ∈ Step.toldOutcomes) →
      (m.name == name) = (m.outcome?.map r).getD false) :
    t.told.countP (Activity.named name) = t.history.countP fun s => r s.outcome := by
  have hlines := congrArg (List.countP fun l : Line => r l.2.1) h.lines
  rw [List.countP_filterMap, List.countP_filterMap, List.countP_reverse] at hlines
  have htold : t.told.countP (Activity.named name) =
      t.told.countP fun a => (a.line?.map fun l : Line => r l.2.1).getD false := by
    refine List.countP_congr fun a ha => ?_
    unfold Activity.named Activity.line?
    rw [hm a.milestone fun o ho => h.mem_toldOutcomes ha ho, Option.map_map]
    rfl
  rw [htold, hlines]
  refine List.countP_congr fun s _ => ?_
  unfold Step.line?
  split
  · rfl
  · next hs => exact iff_of_false Bool.false_ne_true fun hrs => hs (hr _ hrs)

end Story

namespace World

/-- The activities that went out, the latest first. -/
def activities (w : World) : List Activity := w.trace.filterMap Effect.activity?

/-- What was told of a cursor, the latest first. -/
def told (w : World) (key : CursorKey) : List Activity := w.activities.filter fun a => a.key = key

/-- How often an activity of a kind told of a cursor. -/
def tally (w : World) (key : CursorKey) (name : String) : Nat :=
  (w.told key).countP (Activity.named name)

/-- The history of the cursor of a key. -/
def history (w : World) (key : CursorKey) : List Step :=
  ((w.cursors.find? key).map Cursor.history).getD []

/-- The state of the cursor of a key. -/
def state? (w : World) (key : CursorKey) : Option CursorState :=
  (w.cursors.find? key).map Cursor.state

/-- The story of the cursor of a key. -/
def story (w : World) (key : CursorKey) : Story := ⟨w.history key, w.state? key, w.told key⟩

/-- Stories go on at an instant, no mail goes out, and mails of some cursors are told of. -/
structure Tells (now : Instant) (accepted : List CursorKey) (w v : World) : Prop where
  stories : ∀ key, (w.story key).Goes now (v.story key)
  mails : v.submissions = w.submissions
  accepted : ∀ key, v.tally key "email_sent" = w.tally key "email_sent" + accepted.count key

/-- No history and no state changes, and nothing is told. -/
structure Mute (w v : World) : Prop where
  history : ∀ key, v.history key = w.history key
  state? : ∀ key, v.state? key = w.state? key
  activities : v.activities = w.activities
  mails : v.submissions = w.submissions

/-- The cursor of a key ran, and it gets a line of history with activities. -/
structure Adds (key : CursorKey) (s : Step) (state : CursorState) (marks : List Activity)
    (w v : World) : Prop where
  running : ∃ before, w.state? key = some before ∧ before.terminal = false
  history : v.history key = w.history key ++ [s]
  state? : v.state? key = some state
  others : ∀ k, k ≠ key → v.history k = w.history k ∧ v.state? k = w.state? k
  activities : v.activities = marks ++ w.activities
  own : ∀ a ∈ marks, a.key = key
  mails : v.submissions = w.submissions

variable {w v u : World} {now : Instant} {key : CursorKey} {c d : Cursor}

theorem Tells.trans {l l' : List CursorKey} (h : w.Tells now l v) (h' : v.Tells now l' u) :
    w.Tells now (l ++ l') u where
  stories := fun key => (h.stories key).trans (h'.stories key)
  mails := h'.mails.trans h.mails
  accepted := fun key => by rw [h'.accepted, h.accepted, List.count_append, Nat.add_assoc]

theorem Tells.refl (w : World) : w.Tells now [] w := ⟨fun _ => .refl, rfl, fun _ => rfl⟩

instance : IsPreorder World (Tells now []) where
  refl := .refl
  trans := fun _ _ _ h h' => h.trans h'

namespace Mute

theorem refl (w : World) : w.Mute w := ⟨fun _ => rfl, fun _ => rfl, rfl, rfl⟩

theorem trans (h : w.Mute v) (h' : v.Mute u) : w.Mute u where
  history := fun key => (h'.history key).trans (h.history key)
  state? := fun key => (h'.state? key).trans (h.state? key)
  activities := h'.activities.trans h.activities
  mails := h'.mails.trans h.mails

instance : IsPreorder World Mute where
  refl := .refl
  trans := fun _ _ _ => .trans

theorem told (h : w.Mute v) (key : CursorKey) : v.told key = w.told key := by
  unfold World.told
  rw [h.activities]

theorem story (h : w.Mute v) (key : CursorKey) : v.story key = w.story key := by
  unfold World.story
  rw [h.history, h.state?, h.told]

theorem tells (h : w.Mute v) : w.Tells now [] v where
  stories := fun key => by rw [h.story]
  mails := h.mails
  accepted := fun key => by unfold tally; rw [h.told]; rfl

/-- What leaves cursors alone, tells nothing and lets no mail out. -/
theorem of_eq (hc : v.cursors = w.cursors) (ha : v.activities = w.activities)
    (hs : v.submissions = w.submissions) : w.Mute v :=
  ⟨fun _ => by unfold World.history; rw [hc], fun _ => by unfold World.state?; rw [hc], ha, hs⟩

theorem storeCursor (hc : w.cursors.find? c.key = some c) (hk : d.key = c.key)
    (hh : d.history = c.history) (hs : d.state = c.state) : w.Mute (w.storeCursor c d) := by
  have hfield : ∀ {α : Type} (f : Cursor → α), f d = f c → ∀ key,
      ((w.storeCursor c d).cursors.find? key).map f = (w.cursors.find? key).map f := by
    intro α f hf key
    rw [find?_storeCursor, hk]
    split
    · next he => rw [he, hc, Option.map_some, Option.map_some, hf]
    · rfl
  exact ⟨fun key => congrArg (·.getD []) (hfield _ hh key), hfield _ hs, rfl, rfl⟩

theorem count (w : World) (e : Engagement) (only : Option CursorKey) (received : Instant) :
    w.Mute (w.count e only received) := by
  have hone : ∀ (w : World) (key : CursorKey), w.Mute (countOnCursor e w key) := by
    intro w key
    unfold countOnCursor
    split
    · next c hc =>
      refine storeCursor (CursorStore.key_eq_of_find? hc ▸ hc) (c.sameLead_counted e).key ?_ ?_ <;>
        rw [Cursor.counted_eq]
    · exact .refl w
  have hall : ∀ (l : List CursorKey) (w : World), w.Mute (l.foldl (countOnCursor e) w) := by
    intro l
    induction l with
    | nil => exact .refl
    | cons key rest ih => exact fun w => (hone w key).trans (ih _)
  unfold World.count
  split
  · exact .refl w
  · next v hv =>
    have htotals : w.Mute v := by
      obtain ⟨s, -, rfl⟩ := Option.map_eq_some_iff.1 hv
      exact of_eq rfl rfl rfl
    exact htotals.trans (hall _ v)

end Mute

/-! ## Lines -/

/-- What is told of one cursor is told of no other. -/
theorem told_of_activities (marks : List Activity) (ha : v.activities = marks ++ w.activities)
    (hown : ∀ a ∈ marks, a.key = key) (k : CursorKey) :
    v.told k = (if k = key then marks else []) ++ w.told k := by
  unfold told
  rw [ha, List.filter_append]
  congr 1
  split
  · next hk =>
    exact List.filter_eq_self.2 fun a h => by rw [hk]; exact decide_eq_true (hown a h)
  · next hk =>
    refine List.filter_eq_nil_iff.2 fun a h => ?_
    rw [decide_eq_true_iff, hown a h]
    exact fun he => hk he.symm

namespace Adds

variable {s : Step} {state : CursorState} {marks : List Activity}

theorem tells (h : w.Adds key s state marks v) (hs : s.time = now)
    (hmarks : Records s.line? state marks) : w.Tells now [] v := by
  have htold := told_of_activities marks h.activities h.own
  refine ⟨fun k => ?_, h.mails, fun k => ?_⟩
  · unfold story
    rw [htold k]
    by_cases hk : k = key
    · obtain ⟨before, hbefore, hr⟩ := h.running
      rw [hk, h.history, h.state?, hbefore, if_pos rfl]
      exact .single (.line hr hs hmarks)
    · rw [(h.others k hk).1, (h.others k hk).2, if_neg hk, List.nil_append]
  · unfold tally
    rw [htold k, List.countP_append]
    split
    · rw [hmarks.mails, Nat.zero_add]
      rfl
    · exact Nat.zero_add _

/-- One more activity. -/
theorem report (h : w.Adds key s state marks v) {b : Cursor} (hb : b.key = key)
    (milestone : Milestone) (nodeId : String) (now : Instant) :
    w.Adds key s state (b.activity milestone nodeId now :: marks)
      (v.report b milestone nodeId now) where
  __ := h
  activities := congrArg (_ :: ·) h.activities
  own := List.forall_mem_cons.2 ⟨hb, h.own⟩

/-- Something mute follows. -/
theorem mute (h : w.Adds key s state marks v) (hu : v.Mute u) : w.Adds key s state marks u where
  running := h.running
  history := (hu.history key).trans h.history
  state? := (hu.state? key).trans h.state?
  others := fun k hk =>
    ⟨(hu.history k).trans (h.others k hk).1, (hu.state? k).trans (h.others k hk).2⟩
  activities := hu.activities.trans h.activities
  own := h.own
  mails := hu.mails.trans h.mails

/-- A cursor with a new line is stored. -/
theorem of_store (hc : w.cursors.find? c.key = some c) (hr : c.state.terminal = false)
    (hk : d.key = c.key) (hh : d.history = c.history ++ [s]) :
    w.Adds c.key s d.state [] (w.storeCursor c d) := by
  have hself := find?_storeCursor_self hc hk
  have hother : ∀ k, k ≠ c.key → (w.storeCursor c d).cursors.find? k = w.cursors.find? k :=
    fun k hne => by rw [find?_storeCursor, hk, if_neg hne]
  refine ⟨⟨c.state, ?_, hr⟩, ?_, ?_, fun k hne => ?_, rfl, fun _ h => absurd h List.not_mem_nil, rfl⟩
  · unfold World.state?
    rw [hc]
    rfl
  · unfold World.history
    rw [hself, hc]
    exact hh
  · unfold World.state?
    rw [hself]
    rfl
  · unfold World.history World.state?
    rw [hother k hne]
    exact ⟨rfl, rfl⟩

/-- The end of a cursor is counted and told of. -/
theorem finish (h : w.Adds key s state marks v) {b : Cursor} (hb : b.key = key)
    (milestone : Milestone) (nodeId : String) (now : Instant) :
    w.Adds key s state (b.activity milestone nodeId now :: marks)
      ((Change.finish b nodeId state milestone now).on v).2 := by
  have hcounted : v.Mute (v.countOutcome b.campaignId state) := by
    unfold countOutcome
    split <;> exact .of_eq rfl rfl rfl
  exact (h.mute hcounted).report hb milestone nodeId now

/-- Something mute goes before. -/
theorem of_mute (hw : w.Mute v) (h : v.Adds key s state marks u) : w.Adds key s state marks u where
  running := hw.state? key ▸ h.running
  history := hw.history key ▸ h.history
  state? := h.state?
  others := fun k hk =>
    ⟨(h.others k hk).1.trans (hw.history k), (h.others k hk).2.trans (hw.state? k)⟩
  activities := hw.activities ▸ h.activities
  own := h.own
  mails := h.mails.trans hw.mails

end Adds

/-! ## Enrollments and mails -/

/-- A new cursor, which is told of. -/
theorem tells_enrolled (hn : w.cursors.find? c.key = none) (hh : c.history = [])
    (hs : c.state = .pending) {nodeId : String} {time : Instant}
    (hcursors : v.cursors = w.cursors.addNew c)
    (ha : v.activities = c.activity .enrolled nodeId time :: w.activities)
    (hm : v.submissions = w.submissions) : w.Tells now [] v := by
  have hown : ∀ a ∈ [c.activity .enrolled nodeId time], a.key = c.key :=
    List.forall_mem_singleton.2 rfl
  have htold := told_of_activities [_] ha hown
  refine ⟨fun k => ?_, hm, fun k => ?_⟩
  · unfold story history state?
    rw [htold k, hcursors, CursorStore.find?_addNew]
    by_cases hk : k = c.key
    · rw [hk, hn, if_pos rfl, if_pos rfl, Option.map_some, Option.map_some, hh, hs]
      exact .single (.enrolled rfl)
    · rw [if_neg hk, if_neg hk, List.nil_append]
  · unfold tally
    rw [htold k, List.countP_append]
    split <;> exact Nat.zero_add _

/-- A mail that was accepted is told of. -/
theorem tells_mailed (w : World) (c : Cursor) (id nodeId : String) (time : Instant) :
    w.Tells now [c.key] (w.report c (.mailSent id) nodeId time) := by
  have hown : ∀ a ∈ [c.activity (.mailSent id) nodeId time], a.key = c.key :=
    List.forall_mem_singleton.2 rfl
  have htold := told_of_activities [_] (w := w)
    (v := w.report c (.mailSent id) nodeId time) rfl hown
  refine ⟨fun k => ?_, rfl, fun k => ?_⟩
  · show Story.Goes now _ ⟨w.history k, w.state? k, _⟩
    rw [htold k]
    by_cases hk : k = c.key
    · rw [if_pos hk]
      exact .single (.mailed rfl)
    · rw [if_neg hk]
      exact .refl
  · unfold tally
    rw [htold k, List.countP_append, Nat.add_comm]
    by_cases hk : k = c.key
    · rw [if_pos hk, hk, List.count_singleton_self]
      rfl
    · rw [if_neg hk, List.count_eq_zero_of_not_mem (by simpa using hk)]
      rfl

end World

end MailCampaign
