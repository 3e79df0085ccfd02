import MailCampaign.Proofs.Cursor.Route
import MailCampaign.Proofs.Run.Basic

/-!
# Loops in runs

The history of every cursor of a run tells its route, as every small step goes on along it. So a
cursor that came back to a step sat out a window since it was there last, when the conditions that the
cycles of its flow leave on `no` are in the mode `any` (`Run.loops_wait`). When one is in the mode
`none`, signals alone may drive a cursor round a loop of mails (`Run.nudged_at_once`).
-/

namespace MailCampaign

variable {σ : Type}

/-- After some lines of its history a cursor left a step, and after some more it was there again. -/
def Cursor.Loops (c : Cursor) (before : List Step) (leaving : Step) (loop : List Step) : Prop :=
  leaving.Departs ∧ ∃ rest, c.history = before ++ leaving :: loop ++ rest ∧
    match rest with
    | s :: _ => s.nodeId = leaving.nodeId
    | [] => c.nodeId = leaving.nodeId ∧ c.state ≠ .completed

/-- A cursor came back along its route. -/
theorem Cursor.Routed.of_loops {d : Document} {entry : String} {c : Cursor} {before loop : List Step}
    {leaving : Step} (h : c.Routed d entry) (hl : c.Loops before leaving loop) :
    d.Route entry (before ++ leaving :: loop) leaving.nodeId := by
  obtain ⟨-, rest, hsplit, hback⟩ := hl
  cases rest with
  | nil =>
    rw [List.append_nil] at hsplit
    rw [← hsplit, ← hback.1]
    exact h.here hback.2
  | cons s rest =>
    have hthere : s.nodeId = leaving.nodeId := hback
    rw [← hthere]
    exact h.lines _ s rest hsplit

namespace World

/-- The histories of all cursors tell their routes. -/
def Routed (w : World) : Prop :=
  ∀ key c g, w.cursors.find? key = some c → w.flows.find? c.flowId = some g →
    c.Routed g.definition.document g.entry.id

variable {policy : RetryPolicy} {scope : Scope} {w v : World}

theorem routed_empty (nextId : Nat) : (empty nextId).Routed := by
  intro key c g hc
  cases hc

/-- Every small step of a sound world goes on along the routes. -/
theorem Shift.routed (h : w.Shift policy scope v) (hsound : w.Sound) (hw : w.Routed) :
    v.Routed :=
  h.each hsound (fun _ id campaign leadId now => .new id campaign leadId now)
    (fun _ _ _ hg hwf ht hr => hr.turn hwf hg rfl ht)
    (fun _ _ reason now hr hrouted => hrouted.canceled hr reason now)
    (fun _ _ e hrouted => hrouted.counted e) hw

end World

namespace Run

variable {svc : Services σ} {allowed : Fault → Prop} {s : Session (σ × List Moment)}

theorem routed (h : Run svc allowed s) : ∀ m ∈ s.moments, m.world.Sound ∧ m.world.Routed := by
  refine (h.always (P := fun w => w.Sound ∧ w.Routed) ?_ ?_).2
  · exact fun n => ⟨World.sound_empty n, World.routed_empty n⟩
  · exact fun u v hshift hu => ⟨hshift.sound hu.1, hshift.routed hu.1 hu.2⟩

end Run

/-- **Loops wait.** In a legal flow whose cycles leave conditions on `no` in the mode `any` only, every
cycle has an edge that leaves a condition on the branch for the end of its window, and that window
takes time. So at every moment of a run, a cursor of such a flow that left a step and came back to it
sat out the window of a condition on the way: the window opened with the line right before the one
with which it ended. -/
theorem Run.loops_wait {d : Document} {entry : Node} (hd : d.validate = .ok entry)
    (hany : d.LoopsOnAny) :
    (∀ l, Cycle d.edges l → ∃ e ∈ l, ∃ k, d.LeavesOnTimeout e k ∧ k.wait.isZero = false) ∧
      ∀ {σ : Type} (svc : Services σ) (allowed : Fault → Prop) (s : Session (σ × List Moment)),
        Run svc allowed s → ∀ m ∈ s.moments, ∀ key c g, m.world.cursors.find? key = some c →
          m.world.flows.find? c.flowId = some g → g.definition.document = d →
          ∀ before leaving loop, c.Loops before leaving loop →
            ∃ first waited rest opening, leaving :: loop = first ++ waited :: rest ∧
              (before ++ first).getLast? = some opening ∧
              ∃ n ∈ d.nodes, ∃ k, n.id = waited.nodeId ∧ n.action = .condition k ∧
                k.wait.isZero = false ∧ k.SatOut opening waited := by
  have hlegal := Document.legal_of_validate hd
  refine ⟨fun l hl => hlegal.exists_timeout hl (hany l hl), ?_⟩
  intro σ svc allowed s hrun m hm key c g hc hg hdoc before leaving loop hloops
  have hrouted := (hrun.routed m hm).2 key c g hc hg
  rw [hdoc] at hrouted
  exact hlegal.sat_out hany hloops.1 (hrouted.of_loops hloops)

/-! ## Two runs -/

/-- The run in which the window of the enrolled lead ends and the reminder leads back to its
condition. -/
def Session.reminded : Session (Nat × List Moment) :=
  (Operation.tick 10 .secondDay).next .plain .enrolled

theorem run_reminded (allowed : Fault → Prop) : Run .plain allowed .reminded :=
  (run_enrolled allowed).succeed (.tick 10 .secondDay) trivial (by decide +kernel)

theorem Document.loopsOnAny_followUp : Document.followUp.LoopsOnAny := by
  rintro l - e - k ⟨⟨n, hn, -, ha⟩, -⟩
  simp only [followUp, List.mem_cons, List.not_mem_nil, or_false] at hn
  rcases hn with rfl | rfl | rfl | rfl <;> cases ha
  rfl

namespace Run

/-- The lead that was reminded had come back to the condition, two days after its window opened. -/
theorem loops_wait_reminded :
    ∃ c before leaving loop, Session.reminded.world.cursors.find? ⟨.ofNat 0, "ada"⟩ = some c ∧
      leaving = ⟨"replied", "condition", "no", .secondDay⟩ ∧ c.Loops before leaving loop ∧
      ∃ first waited rest opening, leaving :: loop = first ++ waited :: rest ∧
        (before ++ first).getLast? = some opening ∧
        ∃ n ∈ Document.followUp.nodes, ∃ k, n.id = waited.nodeId ∧ n.action = .condition k ∧
          k.wait.isZero = false ∧ k.SatOut opening waited := by
  have hhistory : (Session.reminded.world.cursors.find? ⟨.ofNat 0, "ada"⟩).map Cursor.history =
      some [⟨"intro", "email", "sent", .epoch⟩,
        ⟨"replied", "condition", "condition_entered", .epoch⟩,
        ⟨"replied", "condition", "no", .secondDay⟩, ⟨"reminder", "email", "sent", .secondDay⟩,
        ⟨"replied", "condition", "condition_entered", .secondDay⟩] := by decide +kernel
  obtain ⟨c, hc, hlines⟩ := Option.map_eq_some_iff.1 hhistory
  have hloops : c.Loops [⟨"intro", "email", "sent", .epoch⟩,
      ⟨"replied", "condition", "condition_entered", .epoch⟩]
      ⟨"replied", "condition", "no", .secondDay⟩ [⟨"reminder", "email", "sent", .secondDay⟩] :=
    ⟨by simp [Step.Departs, Branch.name], [_], hlines, rfl⟩
  have hflow : (Session.reminded.world.flows.find? (.ofNat 0)).map (·.definition.document) =
      some .followUp := by decide +kernel
  obtain ⟨g, hg, hdoc⟩ := Option.map_eq_some_iff.1 hflow
  have hversion : c.flowId = .ofNat 0 :=
    congrArg CursorKey.flowId (CursorStore.key_eq_of_find? hc)
  have hvalid : Document.followUp.validate = .ok ⟨"intro", .email ⟨none, "Hello", "Hello"⟩⟩ := by
    decide +kernel
  exact ⟨c, _, _, _, hc, rfl, hloops,
    (loops_wait hvalid Document.loopsOnAny_followUp).2 .plain (fun _ => True) .reminded
      (run_reminded _) ⟨none, Session.reminded.world⟩ List.mem_cons_self _ c g hc
      (hversion ▸ hg) hdoc _ _ _ hloops⟩

end Run

/-- A mail, and another each time that the lead opens one within two days. -/
def Document.nudging : Document where
  nodes := [⟨"intro", .email ⟨none, "Hello", "Hello"⟩⟩,
    ⟨"quiet", .condition ⟨{ opened := true }, .noneOf, ⟨2, .days⟩⟩⟩,
    ⟨"nudge", .email ⟨none, "Hello again", "Hello again"⟩⟩,
    ⟨"won", .goal ⟨.conversion, none⟩⟩]
  edges := [{ id := "a", source := "intro", target := "quiet" },
    { id := "b", source := "quiet", sourceHandle := some "yes", target := "won" },
    { id := "c", source := "quiet", sourceHandle := some "no", target := "nudge" },
    { id := "d", source := "nudge", target := "quiet" }]

/-- The lead opens a mail, as the event of a key tells. -/
def Engagement.openedBy (key : String) : Engagement :=
  ⟨"ada", .ofNat 7, .opened, .epoch, key, {}⟩

/-- The run in which a lead opens two mails of that flow at once. -/
def Session.nudged : Session (Nat × List Moment) :=
  [Operation.activate (.ofNat 7) .nudging .epoch, .enroll (.ofNat 7) .ada .epoch,
    .ingest (.openedBy "first") .epoch, .ingest (.openedBy "second") .epoch].foldl
    (fun s op => op.next .plain s) (.start 0 0)

theorem run_nudged (allowed : Fault → Prop) : Run .plain allowed .nudged :=
  ((((Run.start 0 0).succeed (.activate (.ofNat 7) .nudging .epoch) rfl
    (by decide +kernel)).succeed (.enroll (.ofNat 7) .ada .epoch) trivial
    (by decide +kernel)).succeed (.ingest (.openedBy "first") .epoch) trivial
    (by decide +kernel)).succeed (.ingest (.openedBy "second") .epoch) trivial (by decide +kernel)

/-- A flow passes the rules though one of its cycles has no edge for the end of a window, and two
signals drive a lead round it, with a mail each time and all at one instant. -/
theorem Run.nudged_at_once :
    Document.nudging.validate = .ok ⟨"intro", .email ⟨none, "Hello", "Hello"⟩⟩ ∧
    (∃ l, Cycle Document.nudging.edges l ∧
      ∀ e ∈ l, ∀ k, ¬ Document.nudging.LeavesOnTimeout e k) ∧
    Run .plain (fun _ => False) .nudged ∧
    ∃ c, Session.nudged.world.cursors.find? ⟨.ofNat 0, "ada"⟩ = some c ∧
      c.Loops [⟨"intro", "email", "sent", .epoch⟩,
          ⟨"quiet", "condition", "condition_entered", .epoch⟩,
          ⟨"quiet", "condition", "no", .epoch⟩]
        ⟨"nudge", "email", "sent", .epoch⟩
        [⟨"quiet", "condition", "condition_entered", .epoch⟩,
          ⟨"quiet", "condition", "no", .epoch⟩] := by
  refine ⟨by decide +kernel, ?_, run_nudged _, ?_⟩
  · refine ⟨[{ id := "c", source := "quiet", sourceHandle := some "no", target := "nudge" },
      { id := "d", source := "nudge", target := "quiet" }],
      ⟨List.cons_ne_nil _ _, "quiet", by decide +kernel⟩, ?_⟩
    rintro e he k ⟨⟨n, hn, hid, ha⟩, hbranch⟩
    simp only [Document.nudging, List.mem_cons, List.not_mem_nil, or_false] at hn he
    rcases hn with rfl | rfl | rfl | rfl <;> cases ha
    rcases he with rfl | rfl
    · exact absurd hbranch (by decide +kernel)
    · exact absurd hid (by decide)
  · have hhistory : (Session.nudged.world.cursors.find? ⟨.ofNat 0, "ada"⟩).map Cursor.history =
        some [⟨"intro", "email", "sent", .epoch⟩,
          ⟨"quiet", "condition", "condition_entered", .epoch⟩,
          ⟨"quiet", "condition", "no", .epoch⟩, ⟨"nudge", "email", "sent", .epoch⟩,
          ⟨"quiet", "condition", "condition_entered", .epoch⟩,
          ⟨"quiet", "condition", "no", .epoch⟩, ⟨"nudge", "email", "sent", .epoch⟩,
          ⟨"quiet", "condition", "condition_entered", .epoch⟩] := by decide +kernel
    obtain ⟨c, hc, hlines⟩ := Option.map_eq_some_iff.1 hhistory
    exact ⟨c, hc, by simp [Step.Departs], _, hlines, rfl⟩

end MailCampaign
