import MailCampaign.Proofs.Run.Prodded
import MailCampaign.Proofs.World.Stay

/-!
# Nothing fires early

Whatever triggers come at whatever instants, no wait ends before its time.

1. The visits of all cursors are stays, along every course and over every restart. The timer of a stay
   is told by its last line, so what the line that leaves a step has to wait for is told by the line
   right before it (`Cursor.Stayed.waited`).
2. A mail is handed over for a cursor that may send it, so its timer is due if it has one, and that is
   the timer of its last failed attempt (`Node.Stay.spaces`). Both last in prodded sessions
   (`Engine.lasting_punctual`).
-/

namespace MailCampaign

variable {σ : Type} {svc : Services σ} {allowed : Fault → Prop} {s : Session (σ × List Moment)}
  {policy : RetryPolicy} {g : Graph} {c : Cursor}

/-! ## Histories -/

/-- The lines of failed attempts at a mail, in view of the time of the next one. After the `k`-th the
next is not before the wait that the policy sets for `k` is over. This also holds of the time after
all of them, unless a later wait is negative. -/
def RetryPolicy.Spaces (policy : RetryPolicy) (lines : List Step) (next : Instant) : Prop :=
  ∀ before s later, lines = before ++ s :: later → s.outcome = "send_retry" ∧
    ∃ t, s.time.add? (policy.backoff (.ofNat (before.length + 1))) = some t ∧
      (∀ u, later.head? = some u → t ≤ u.time) ∧
      ((∀ i, before.length + 1 < i → i ≤ lines.length →
        0 ≤ (policy.backoff (.ofNat i)).seconds) → t ≤ next)

/-- What the history of a cursor in a version of a flow tells of its waits. -/
structure Cursor.Waited (policy : RetryPolicy) (g : Graph) (c : Cursor) : Prop where
  /-- A delay that is over was scheduled by the line before, and not for a later time. -/
  elapsed : ∀ before s rest, c.history = before ++ s :: rest → s.outcome = "delay_elapsed" →
    ∃ n wait o due, g.node? s.nodeId = some n ∧ n.action = .delay wait ∧
      before.getLast? = some o ∧ o.nodeId = s.nodeId ∧ o.outcome = "delay_scheduled" ∧
      o.time.add? wait.span = some due ∧ due ≤ s.time
  /-- As long as a delay lasts, the timer is set for its end. -/
  scheduled : ∀ o, c.history.getLast? = some o → o.outcome = "delay_scheduled" →
    ∃ n wait due, g.node? o.nodeId = some n ∧ n.action = .delay wait ∧
      o.time.add? wait.span = some due ∧ c.nextRun = some due
  /-- A condition that is left on the branch for the end of its window was sat out. -/
  timedOut : ∀ before s rest n k, c.history = before ++ s :: rest →
    g.node? s.nodeId = some n → n.action = .condition k →
    (Verdict.onTimeout k.mode).branch?.map Branch.name = some s.outcome →
    ∃ opening, before.getLast? = some opening ∧ k.SatOut opening s
  /-- When a mail was sent, the wait after each failed attempt of that visit was over. -/
  sent : ∀ before s rest, c.history = before ++ s :: rest → s.outcome = "sent" →
    policy.Spaces (Visits.of before).present s.time

/-- The attempts of a stay at a mail are spaced, up to a time at which its timer is due. -/
theorem Node.Stay.spaces {n : Node} {lines : List Step} {retries : UInt32} {due : Option Instant}
    {next : Instant} (h : n.Stay policy lines retries due) (hm : n.Mails)
    (hdue : ∀ t, due = some t → t ≤ next) : policy.Spaces lines next := by
  rintro before s later rfl
  have hretry : s.outcome = "send_retry" := (h.of_mail hm).1 s (by simp)
  obtain ⟨t, ht, hnext, -⟩ := h.again hretry
  refine ⟨hretry, t, ht, hnext, fun hpos => ?_⟩
  cases due with
  | none => exact absurd h.of_none.1 (by simp)
  | some last =>
    have hlast : t ≤ last := h.not_before hretry hm ht fun i hlt hle =>
      hpos i hlt (by rw [List.length_append, List.length_cons]; omega)
    exact Int.le_trans hlast (hdue last rfl)

/-- The last line of a history, if it does not leave a step, is the last of the present visit. -/
theorem Visits.getLast?_present {history : List Step} {o : Step} (h : history.getLast? = some o)
    (ho : ¬ o.Departs) : (of history).present.getLast? = some o := by
  obtain ⟨before, rfl⟩ := List.getLast?_eq_some_iff.1 h
  rw [of_concat, add_stays ho, List.getLast?_concat]

namespace Cursor.Stayed

/-- The line with which a cursor left a step, after the stay there. -/
theorem leaving (h : c.Stayed policy g) {before rest : List Step} {s : Step}
    (hsplit : c.history = before ++ s :: rest) (hs : s.Departs) :
    ∃ n retries due, g.node? s.nodeId = some n ∧
      n.Stay policy (Visits.of before).present retries due ∧ n.Leaving due s := by
  have hmem := Visits.mem_past hs before rest
  rw [← hsplit] at hmem
  exact h.past _ hmem

/-- The history of a cursor whose visits are stays tells of its waits. -/
theorem waited (h : c.Stayed policy g) : c.Waited policy g where
  elapsed := by
    intro before s rest hsplit ho
    obtain ⟨n, retries, due, hn, hstay, hl⟩ := h.leaving hsplit (by simp [Step.Departs, ho])
    cases hl with
    | sent _ ho' => exact absurd (ho'.symm.trans ho) (by decide)
    | @answered _ branch _ _ ho' => exact absurd (ho'.symm.trans ho) (by cases branch <;> decide)
    | @elapsed wait t ha _ hdue hle =>
      rw [hdue] at hstay
      obtain ⟨o, hlines, hnode, hscheduled, hadd⟩ := hstay.of_delay ha
      have hlast : before.getLast? = some o := Visits.getLast?_of_present (by rw [hlines]; rfl)
      exact ⟨n, wait, o, t, hn, ha, hlast, hnode.trans (Graph.id_of_node? hn), hscheduled, hadd, hle⟩
  scheduled := by
    intro o hlast ho
    have hparks : o.Parks := by simp [Step.Parks, ho]
    have hpresent : c.visits.present.getLast? = some o :=
      Visits.getLast?_present hlast hparks.not_departs
    cases hr : c.state.terminal with
    | true =>
      -- The last line of a cursor that ended tells of something else.
      rcases h.ended hr with hnil | ⟨n, stay, retries, due, s, -, -, hlines, hs, -⟩
      · rw [hnil] at hpresent
        cases hpresent
      · rw [hlines, List.getLast?_concat] at hpresent
        exact absurd (Option.some.inj hpresent ▸ hparks) hs
    | false =>
      obtain ⟨n, hn, hstay⟩ := h.running hr
      obtain ⟨wait, t, ha, hdue, hadd⟩ := hstay.of_scheduled hpresent ho
      have hnode := (hstay.lines o (List.mem_of_getLast? hpresent)).1
      have hid : o.nodeId = c.nodeId := hnode.trans (Graph.id_of_node? hn)
      exact ⟨n, wait, t, hid ▸ hn, ha, hadd, hdue⟩
  timedOut := by
    intro before s rest n k hsplit hn ha hbranch
    obtain ⟨branch, honTimeout, hname⟩ := Option.map_eq_some_iff.1 hbranch
    have hdeparts : s.Departs := by
      have hnext := Verdict.branch?_ne_next honTimeout
      cases branch <;> simp [Step.Departs, ← hname] at hnext ⊢
    obtain ⟨n', retries, due, hn', hstay, hl⟩ := h.leaving hsplit hdeparts
    obtain rfl : n' = n := Option.some.inj (hn'.symm.trans hn)
    cases hl with
    | sent hm =>
      obtain ⟨mail, ha'⟩ := hm
      rw [ha] at ha'
      cases ha'
    | elapsed ha' => rw [ha] at ha'; cases ha'
    | @answered k' branch' ha' _ hname' htime =>
      obtain rfl : k' = k := Action.condition.inj (ha'.symm.trans ha)
      have hsame : branch' = branch := by
        have hnames := hname'.symm.trans hname.symm
        cases branch' <;> cases branch <;> first | rfl | exact absurd hnames (by decide)
      obtain ⟨t, hdue, hle⟩ := htime (hsame ▸ honTimeout)
      rw [hdue] at hstay
      obtain ⟨o, hlines, hnode, hentered, hadd⟩ := hstay.of_condition ha
      have hlast : before.getLast? = some o := Visits.getLast?_of_present (by rw [hlines]; rfl)
      exact ⟨o, hlast, hnode.trans (Graph.id_of_node? hn), hentered, hbranch, t, hadd, hle⟩
  sent := by
    intro before s rest hsplit ho
    obtain ⟨n, retries, due, -, hstay, hl⟩ := h.leaving hsplit (by simp [Step.Departs, ho])
    cases hl with
    | sent hm _ hdue => exact hstay.spaces hm hdue
    | elapsed _ ho' => exact absurd (ho'.symm.trans ho) (by decide)
    | @answered _ branch _ _ ho' => exact absurd (ho'.symm.trans ho) (by cases branch <;> decide)

end Cursor.Stayed

/-! ## Sessions -/

/-- The visits of all cursors are stays now and at every moment, and mails are handed over for cursors
that may send them. -/
structure Session.Punctual (policy : RetryPolicy) (s : Session (σ × List Moment)) : Prop where
  stayed : s.world.Stayed policy
  moments : ∀ m ∈ s.moments, m.world.Stayed policy
  calls : ∀ m ∈ s.moments, ∀ key now, m.scene = some (.call key now) →
    ∃ h : Handover, h.Due key now m.world

/-- A mail is handed over on record for a cursor that may send it. -/
theorem Session.Punctual.handOn {key : CursorKey} {now : Instant} {h : Handover}
    (hs : s.Punctual svc.retry) (hd : h.Due key now s.world) (t : Template) :
    ((Engine.handOn svc.recording key now h t).on s).2.Punctual svc.retry := by
  obtain ⟨result, u, during, mailer, hcourse, hduring, hon⟩ :=
    Engine.handOn_recorded svc key now h t s
  have hidle : ¬ Scope.idle.mailing.turns key := id
  have hclosing := Change.closing_course hd hidle hcourse result
  rw [hon]
  refine ⟨hclosing.stayed (hcourse.stayed hs.stayed), fun m hm => ?_, fun m hm k t hscene => ?_⟩
  · rcases List.mem_append.1 hm with hm | hm
    · exact (hduring m hm).2.stayed hs.stayed
    · rcases List.mem_cons.1 hm with rfl | hm
      · exact hs.stayed
      · exact hs.moments m hm
  · rcases List.mem_append.1 hm with hm | hm
    · obtain ⟨⟨i, hi⟩, -⟩ := hduring m hm
      rw [hi] at hscene
      cases hscene
    · rcases List.mem_cons.1 hm with rfl | hm
      · cases hscene
        exact ⟨h, hd⟩
      · exact hs.calls m hm k t hscene

theorem Engine.lasting_punctual (svc : Services σ) :
    Lasting svc.recording (fun _ => True) (Session.Punctual svc.retry) where
  otherFaults := fun _ _ => trivial
  course := fun _ _ hs hw => ⟨hw.stayed hs.stayed, hs.moments, hs.calls⟩
  render := fun s mail lead hs => by
    obtain ⟨mailer, hon⟩ := render_recording svc mail lead s
    rw [hon]
    exact ⟨hs.stayed, hs.moments, hs.calls⟩
  mail := fun _ _ _ _ t hs hd _ => hs.handOn hd t

/-- Every prodded session is punctual. -/
theorem Prodded.punctual (h : Prodded svc allowed s) : s.Punctual svc.retry := by
  refine (h.mono fun _ _ => trivial).holds (Engine.lasting_punctual svc) ?_ (fun _ hs => hs.stayed.sound)
    ?_ ?_
  · exact fun firstId mailer => ⟨World.stayed_empty _ firstId, fun _ h => absurd h List.not_mem_nil,
      fun _ h => absurd h List.not_mem_nil⟩
  · intro s v mailer hs hv
    refine ⟨⟨hv.sound hs.stayed.sound, fun key c g hc hg => ?_⟩, hs.moments, hs.calls⟩
    rw [hv.cursors] at hc
    rw [hv.flows] at hg
    exact hs.stayed.each key c g hc hg
  · intro s hs
    exact ⟨hs.stayed, List.forall_mem_cons.2 ⟨hs.stayed, hs.moments⟩,
      List.forall_mem_cons.2 ⟨fun _ _ hscene => (nomatch hscene), hs.calls⟩⟩

/-- **Nothing fires early.** Whatever triggers come, at every moment the history of every cursor tells
that no delay was over and no window timed out before its end, and that its timer is set for the end
of a delay as long as it lasts. Whenever a mail is handed over, the wait after each failed attempt of
the present visit is over. -/
theorem Prodded.nothing_early (h : Prodded svc allowed s) :
    ∀ m ∈ s.moments, ∀ key c, m.world.cursors.find? key = some c →
      ∃ g, m.world.flows.find? c.flowId = some g ∧ c.Waited svc.retry g ∧
        ∀ now, m.scene = some (.call key now) → svc.retry.Spaces c.visits.present now := by
  intro m hm key c hc
  have hs := h.punctual
  obtain ⟨g, hg, hwf, hstayed⟩ := (hs.moments m hm).find hc
  refine ⟨g, hg, hstayed.waited, fun now hscene => ?_⟩
  obtain ⟨handover, hd⟩ := hs.calls m hm key now hscene
  obtain rfl : handover.cursor = c := Option.some.inj (hd.stored.symm.trans hc)
  have hversion := hd.here.version
  obtain rfl : handover.graph = g := Option.some.inj (hversion.symm.trans hg)
  have hstay := hstayed.stay hd.sendable.running hd.here.step
  exact hstay.spaces hd.mails (hd.sendable.due hwf)

/-! ## A run with waits -/

/-- A mail, a day of rest, and a goal. -/
def Document.welcome : Document where
  nodes := [⟨"intro", .email ⟨none, "Hello", "Hello"⟩⟩, ⟨"rest", .delay ⟨1, .days⟩⟩,
    ⟨"won", .goal ⟨.conversion, none⟩⟩]
  edges := [{ id := "a", source := "intro", target := "rest" },
    { id := "b", source := "rest", target := "won" }]

/-- A mailer whose first attempt fails. -/
def Mailer.faltering : Mailer Nat where
  send n _ _ :=
    (⟨if n = 0 then .error (.transient "busy") else .ok ("msg-" ++ (Uuid.ofNat n).text), []⟩, n + 1)

/-- An engine with that mailer. -/
def Services.faltering : Services Nat := { Services.plain with mailer := .faltering }

/-- The fourth day after the epoch. -/
def Instant.fourthDay : Instant :=
  { Instant.epoch with seconds := 345600, inRange := by decide, leap := by decide }

/-- The run in which a lead enters that flow, and its mail fails. -/
def Session.faltered : Session (Nat × List Moment) :=
  [Operation.activate (.ofNat 7) .welcome .epoch, .enroll (.ofNat 7) .ada .epoch].foldl
    (fun s op => op.next .faltering s) (.start 0 0)

/-- The step of the cursor is run too early. -/
def Session.hurried : Session (Nat × List Moment) :=
  ((Engine.poke (Services.recording .faltering) ⟨.ofNat 0, "ada"⟩ .timer .epoch).on
    .faltered).2.noted

/-- The timers fire when they are due. -/
def Session.welcomed : Session (Nat × List Moment) :=
  [Operation.tick 10 .secondDay, .tick 10 .secondDay, .tick 10 .fourthDay].foldl
    (fun s op => op.next .faltering s) .hurried

theorem run_faltered (allowed : Fault → Prop) : Run .faltering allowed .faltered :=
  ((Run.start 0 0).succeed (.activate (.ofNat 7) .welcome .epoch) rfl (by decide +kernel)).succeed
    (.enroll (.ofNat 7) .ada .epoch) trivial (by decide +kernel)

theorem prodded_welcomed (allowed : Fault → Prop) : Prodded .faltering allowed .welcomed := by
  have hignored : ((Engine.poke (Services.recording .faltering) ⟨.ofNat 0, "ada"⟩ .timer .epoch).on
      .faltered).1 = .ok .ignored := by decide +kernel
  have hhurried : Prodded .faltering allowed .hurried :=
    (run_faltered allowed).prodded.poke ⟨.ofNat 0, "ada"⟩ .timer .epoch fun x hx => by
      rw [hignored] at hx
      cases hx
  exact ((hhurried.succeed (.tick 10 .secondDay) trivial (by decide +kernel)).succeed
    (.tick 10 .secondDay) trivial (by decide +kernel)).succeed (.tick 10 .fourthDay) trivial
      (by decide +kernel)

/-- A mail that was tried again, and a delay, both in their time. -/
theorem Prodded.nothing_early_welcomed :
    ∃ c, Session.welcomed.world.cursors.find? ⟨.ofNat 0, "ada"⟩ = some c ∧
      c.history = [⟨"intro", "email", "send_retry", .epoch⟩, ⟨"intro", "email", "sent", .secondDay⟩,
        ⟨"rest", "delay", "delay_scheduled", .secondDay⟩,
        ⟨"rest", "delay", "delay_elapsed", .fourthDay⟩,
        ⟨"won", "goal", "goal_reached", .fourthDay⟩] ∧
      ∃ g, Session.welcomed.world.flows.find? c.flowId = some g ∧
        c.Waited Services.faltering.retry g := by
  have hhistory : (Session.welcomed.world.cursors.find? ⟨.ofNat 0, "ada"⟩).map Cursor.history =
      some [⟨"intro", "email", "send_retry", .epoch⟩, ⟨"intro", "email", "sent", .secondDay⟩,
        ⟨"rest", "delay", "delay_scheduled", .secondDay⟩,
        ⟨"rest", "delay", "delay_elapsed", .fourthDay⟩,
        ⟨"won", "goal", "goal_reached", .fourthDay⟩] := by decide +kernel
  obtain ⟨c, hc, hlines⟩ := Option.map_eq_some_iff.1 hhistory
  obtain ⟨g, hg, hwaited, -⟩ := (prodded_welcomed fun _ => True).nothing_early ⟨none, Session.welcomed.world⟩
    List.mem_cons_self _ c hc
  exact ⟨c, hc, hlines, g, hg, hwaited⟩

end MailCampaign
