import MailCampaign.Proofs.Engine.Feed
import MailCampaign.Proofs.Engine.Routed
import MailCampaign.Proofs.Run.Undisturbed

/-!
# What reports of events tell

An event is routed to the cursors of its lead in its campaign that wait at conditions. Those whose
condition it answers go on at once, until they end or have to wait again.

1. A cursor that ended was answered, and one that was answered ended or waits again
   (`Cursor.AfterEvent.ended_eq`).
2. The report counts the ends as resolved. So it misses the cursors that wait again, be it for a delay, for
   another attempt at a mail or at a condition.
3. In a halted campaign nothing is routed. Nobody waits there, unless an engine was cut short in the middle
   of a pause (`World.Heeded.none_awaits`).
-/

namespace MailCampaign

variable {σ : Type} {svc : Services σ} {s : Session σ} {e : Engagement} {w v : World} {c d : Cursor}

/-- Whether a cursor waits in a world. -/
def World.waits (w : World) (c : Cursor) : Bool := (w.cursors.find? c.key).any (·.state.waiting)

theorem CursorState.waiting_of_not_entering {state : CursorState} (h : state.entering = false) :
    state.waiting = !state.terminal := by
  cases state with
  | pending => cases h
  | active => cases h
  | _ => rfl

/-- A cursor that was sent an event ended just if it was answered and does not wait again. -/
theorem Cursor.AfterEvent.ended_eq (h : c.AfterEvent d) (hd : v.cursors.find? c.key = some d) :
    v.ended c = (v.answered c && !v.waits c) := by
  rw [World.ended, World.answered, World.waits, hd, Option.any_some, Option.any_some, Option.any_some]
  cases h with
  | waits _ hstate =>
    rw [hstate]
    exact (Bool.and_false _).symm
  | answered hanswers hrests =>
    rw [CursorState.waiting_of_not_entering hrests, decide_eq_true hanswers, Bool.true_and,
      Bool.not_not]

/-- An event finds no cursor that waits in a halted campaign if halts are heeded. -/
theorem World.Heeded.none_awaits (h : w.Heeded) (hst : (w.status e.campaignId).halts = true) :
    w.cursors.all.countP (·.awaits e) = 0 := by
  refine List.countP_eq_zero.2 fun c hc hawaits => ?_
  simp only [Cursor.awaits, Bool.and_eq_true, beq_iff_eq] at hawaits
  have ht := h _ hst c.key c (CursorStore.mem_all.1 hc) hawaits.2.1
  rw [hawaits.2.2] at ht
  cases ht

/-- **What the report of an event counts.** Take any world that engines come to, restarts and crashes
included, an event whose key was not let in before and that does not stop its lead, and a mailer that lets
nothing happen while it is at work. Unless a time is out of range there is a report. As routed it counts
the cursors of the lead in the campaign that waited at conditions, and none in a halted campaign, where
none waits if nothing disturbed the engine. Those of them with a new answer in their history are the ones
that it counts as resolved and the ones that wait again. -/
theorem World.Lineage.report_counts {base : World} (h : base.Lineage s.world)
    (hq : svc.mailer.Quiet) (hfresh : s.world.seen.table.find? e.key = none)
    (hkind : e.haltsLead = false) (now : Instant) :
    ∃ r t, (Engine.ingest svc e now).on s = (r, t) ∧ (r = .error .outOfRange ∨
      ∃ report, r = .ok report ∧
        report.routed = (if (s.world.status e.campaignId).halts then 0
          else s.world.cursors.all.countP (·.awaits e)) ∧
        (s.world.Undisturbed → report.routed = s.world.cursors.all.countP (·.awaits e)) ∧
        s.world.cursors.all.countP (fun c => c.awaits e && t.world.answered c) = report.resolved +
          s.world.cursors.all.countP fun c => c.awaits e && t.world.answered c && t.world.waits c) := by
  have hknown := h.known
  obtain ⟨r, t, hon, hcase⟩ := Engine.ingest_routed hq hknown.inOrder.indexed hknown.sound hfresh hkind
    now
  refine ⟨r, t, hon, hcase.imp_right fun ⟨hr, hall⟩ => ⟨_, hr, rfl, fun hcalm => ?_, ?_⟩⟩
  · rw [Engine.routedReport]
    dsimp only
    split
    · next hst => exact (hcalm.heeded.none_awaits hst).symm
    · rfl
  · have hended : (s.world.cursors.all.countP fun c => c.awaits e && t.world.ended c) =
        s.world.cursors.all.countP fun c => (c.awaits e && t.world.answered c) && !t.world.waits c := by
      refine List.countP_congr fun c hc => ?_
      cases hawaits : c.awaits e with
      | false => exact Iff.rfl
      | true =>
        obtain ⟨d, hd, hafter⟩ := hall c (CursorStore.mem_all.1 hc) hawaits
        rw [hafter.ended_eq hd]
        exact Iff.rfl
    rw [List.countP_eq_countP_filter_add _ _ t.world.waits, List.countP_filter, List.countP_filter,
      Nat.add_comm, ← hended]
    rfl

/-- The lead waits for a reply. The event answers the condition and takes the lead to its goal. -/
theorem World.Lineage.report_counts_replied :
    let s : Session Nat := ⟨Session.enrolled.world, 0⟩
    s.world.Undisturbed ∧ ∃ t, (Engine.ingest .plain (.ofAda .replied) .epoch).on s =
        (.ok { key := "replied", routed := 1, resolved := 1 }, t) ∧
      s.world.cursors.all.countP (fun c => c.awaits (.ofAda .replied) && t.world.answered c) = 1 := by
  let s : Session Nat := ⟨Session.enrolled.world, 0⟩
  have hquiet : Services.plain.mailer.Quiet := quiet_logMailer
  have hundisturbed : s.world.Undisturbed := (run_enrolled fun _ => True).undisturbed hquiet
  have hfresh : s.world.seen.table.find? "replied" = none := by decide +kernel
  let answered := (Engine.ingest .plain (.ofAda .replied) .epoch).on s
  have hreport : answered.1 = .ok { key := "replied", routed := 1, resolved := 1 } := by decide +kernel
  have hagain : (s.world.cursors.all.countP fun c => c.awaits (.ofAda .replied) &&
      answered.2.world.answered c && answered.2.world.waits c) = 0 := by decide +kernel
  obtain ⟨base, hbase⟩ := hundisturbed.lineage
  obtain ⟨r, t, hon, hcase⟩ := hbase.report_counts (s := s) (e := .ofAda .replied) hquiet hfresh rfl
    .epoch
  have hanswered : answered = (r, t) := hon
  rw [hanswered] at hreport hagain
  obtain rfl := hreport
  obtain hrange | ⟨report, hok, -, -, hcount⟩ := hcase
  · cases hrange
  obtain rfl := Except.ok.inj hok
  rw [hagain] at hcount
  exact ⟨hundisturbed, t, hon, hcount⟩

/-- A lead that replies is thanked a day later. -/
def Document.lingering : Document where
  nodes := [⟨"intro", .email ⟨none, "Hello", "Hello"⟩⟩,
    ⟨"replied", .condition ⟨{ replied := true }, .anyOf, ⟨2, .days⟩⟩⟩,
    ⟨"pause", .delay ⟨1, .days⟩⟩,
    ⟨"thanks", .email ⟨none, "Thanks", "Thanks"⟩⟩,
    ⟨"goodbye", .email ⟨none, "Goodbye", "Goodbye"⟩⟩]
  edges := [{ id := "a", source := "intro", target := "replied" },
    { id := "b", source := "replied", sourceHandle := some "yes", target := "pause" },
    { id := "c", source := "pause", target := "thanks" },
    { id := "d", source := "replied", sourceHandle := some "no", target := "goodbye" }]

/-- The run in which a lead enters that flow and waits for two days. -/
def Session.lingering : Session (Nat × List Moment) :=
  [Operation.activate (.ofNat 7) .lingering .epoch, .enroll (.ofNat 7) .ada .epoch].foldl
    (fun s op => op.next .plain s) (.start 0 0)

theorem run_lingering (allowed : Fault → Prop) : Run .plain allowed .lingering :=
  ((Run.start 0 0).succeed (.activate (.ofNat 7) .lingering .epoch) rfl (by decide +kernel)).succeed
    (.enroll (.ofNat 7) .ada .epoch) trivial (by decide +kernel)

/-- The reply answers the condition, as the history of the lead tells, but the report counts nothing as
resolved. -/
theorem Engine.reply_not_counted :
    let s : Session Nat := ⟨Session.lingering.world, 0⟩
    let answered := (Engine.ingest .plain (.ofAda .replied) .epoch).on s
    s.world.Undisturbed ∧
    answered.1 = .ok { key := "replied", routed := 1, resolved := 0 } ∧
    (s.world.cursors.all.countP fun c =>
      c.awaits (.ofAda .replied) && answered.2.world.answered c) = 1 ∧
    ((s.world.cursors.find? ⟨.ofNat 0, "ada"⟩).map Cursor.history =
      some [⟨"intro", "email", "sent", .epoch⟩, ⟨"replied", "condition", "condition_entered", .epoch⟩]) ∧
    (answered.2.world.cursors.find? ⟨.ofNat 0, "ada"⟩).map Cursor.history =
      some [⟨"intro", "email", "sent", .epoch⟩, ⟨"replied", "condition", "condition_entered", .epoch⟩,
        ⟨"replied", "condition", "yes", .epoch⟩, ⟨"pause", "delay", "delay_scheduled", .epoch⟩] := by
  refine ⟨(run_lingering fun _ => True).undisturbed quiet_logMailer, ?_, ?_, ?_, ?_⟩ <;> decide +kernel

end MailCampaign
