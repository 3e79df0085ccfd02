import MailCampaign.Proofs.Engine.Tried
import MailCampaign.Proofs.Run.Waits

/-!
# The budget of attempts

Whatever triggers come, a visit to a mail has as many attempts as the policy allows and no more.

1. Every call of the mailer for a cursor finds it further on than the call before, and leaves it
   further on, unless a time was out of range (`Session.Climbing`). This lasts.
2. So in one visit the calls find ever more lines. These tell of failed attempts, of which the policy
   allows so many, and there is at most one call more than that (`Prodded.calls_le`).
3. What an attempt comes to is told by its answer (`Engine.execute_tried`).
-/

namespace MailCampaign

variable {σ : Type} {svc : Services σ} {s : Session (σ × List Moment)} {key : CursorKey} {n : Nat}
  {m : Moment}

/-- Whether the mailer is called for a cursor in its visit of a number. -/
def Moment.callsIn (key : CursorKey) (n : Nat) (m : Moment) : Bool :=
  match m.scene with
  | some (.call k _) => k = key ∧ (m.world.cursors.find? key).map Cursor.visit = some n
  | _ => false

theorem Moment.of_callsIn (h : m.callsIn key n = true) :
    (∃ now, m.scene = some (.call key now)) ∧
      ∃ c, m.world.cursors.find? key = some c ∧ c.visit = n := by
  unfold callsIn at h
  split at h
  · next k now hscene =>
    obtain ⟨rfl, hvisit⟩ := of_decide_eq_true h
    exact ⟨⟨now, hscene⟩, Option.map_eq_some_iff.1 hvisit⟩
  · cases h

/-! ## Calls -/

/-- The calls of the mailer for a cursor find it further and further on, and it is further on now. -/
structure Session.Climbing (s : Session (σ × List Moment)) : Prop where
  sound : s.world.Sound
  stored : ∀ m ∈ s.moments, ∀ key now c, m.scene = some (.call key now) →
    m.world.cursors.find? key = some c → ∃ d, s.world.cursors.find? key = some d ∧ c.Further d
  ordered : s.moments.Pairwise fun m' m => ∀ key now' now c' c,
    m'.scene = some (.call key now') → m.scene = some (.call key now) →
    m'.world.cursors.find? key = some c' → m.world.cursors.find? key = some c → c.Further c'

/-- What the calls found stays behind along a course. -/
theorem World.Course.climbs {policy : RetryPolicy} {scope : Scope} {w v : World} {c : Cursor}
    (h : w.Course policy scope v) (hw : ∃ d, w.cursors.find? key = some d ∧ c.Further d) :
    ∃ d, v.cursors.find? key = some d ∧ c.Further d := by
  obtain ⟨d, hd, hfurther⟩ := hw
  obtain ⟨e, he, -⟩ := h.stored hd
  exact ⟨e, he, hfurther.trans_prefix (h.history hd he)⟩

theorem Session.Climbing.handOn {now : Instant} {h : Handover} (hs : s.Climbing)
    (hd : h.Due key now s.world) (t : Template)
    (hrange : ((Engine.handOn svc.recording key now h t).on s).1 ≠ .error .outOfRange) :
    ((Engine.handOn svc.recording key now h t).on s).2.Climbing := by
  obtain ⟨result, u, during, mailer, hcourse, hduring, hon⟩ :=
    Engine.handOn_recorded svc key now h t s
  rw [hon] at hrange ⊢
  have hidle : ¬ Scope.idle.mailing.turns key := id
  have hclosing := Change.closing_course hd hidle hcourse result
  have hquiet : ∀ m ∈ during, ∀ k t, m.scene ≠ some (.call k t) := by
    intro m hm k t hscene
    obtain ⟨⟨i, hi⟩, -⟩ := hduring m hm
    rw [hi] at hscene
    cases hscene
  refine ⟨hclosing.sound (hcourse.sound hs.sound), fun m hm k t c hscene hc => ?_,
    List.pairwise_append.2 ⟨?_, ?_, ?_⟩⟩
  · rcases List.mem_append.1 hm with hm | hm
    · exact absurd hscene (hquiet m hm k t)
    · rcases List.mem_cons.1 hm with rfl | hm
      · cases hscene
        obtain rfl : h.cursor = c := Option.some.inj (hd.stored.symm.trans hc)
        exact Change.closing_further hd hidle hcourse hrange
      · exact hclosing.climbs (hcourse.climbs (hs.stored m hm k t c hscene hc))
  · exact List.pairwise_of_forall_mem_list fun m' hm' _ _ k t' _ _ _ hscene' =>
      absurd hscene' (hquiet m' hm' k t')
  · refine List.pairwise_cons.2 ⟨fun m hm k t' t c' c hscene' hscene hc' hc => ?_, hs.ordered⟩
    obtain ⟨d, hd', hfurther⟩ := hs.stored m hm k t c hscene hc
    obtain rfl : d = c' := Option.some.inj (hd'.symm.trans hc')
    exact hfurther
  · exact fun m' hm' _ _ k t' _ _ _ hscene' => absurd hscene' (hquiet m' hm' k t')

theorem Engine.lasting_climbing (svc : Services σ) :
    Lasting svc.recording (· ≠ .outOfRange) fun s : Session (σ × List Moment) => s.Climbing where
  otherFaults := fun _ hx => hx
  course := fun _ _ hs hw => ⟨hw.sound hs.sound,
    fun m hm key now c hscene hc => hw.climbs (hs.stored m hm key now c hscene hc), hs.ordered⟩
  render := fun s mail lead hs => by
    obtain ⟨mailer, hon⟩ := render_recording svc mail lead s
    rw [hon]
    exact ⟨hs.sound, hs.stored, hs.ordered⟩
  mail := fun _ _ _ _ t hs hd hfaults => hs.handOn hd t fun hx => hfaults _ hx rfl

/-- In a run in which no time was out of range the calls climb. -/
theorem Prodded.climbing (h : Prodded svc (· ≠ .outOfRange) s) : s.Climbing := by
  refine h.holds (Engine.lasting_climbing svc) ?_ (fun _ hs => hs.sound) ?_ ?_
  · exact fun firstId mailer => ⟨World.sound_empty firstId, fun _ h => absurd h List.not_mem_nil, .nil⟩
  · intro s v mailer hs hv
    refine ⟨hv.sound hs.sound, fun m hm key now c hscene hc => ?_, hs.ordered⟩
    rw [hv.cursors]
    exact hs.stored m hm key now c hscene hc
  · intro s hs
    exact ⟨hs.sound, List.forall_mem_cons.2 ⟨fun _ _ _ hscene => (nomatch hscene), hs.stored⟩,
      List.pairwise_cons.2 ⟨fun _ _ _ _ _ _ _ hscene => (nomatch hscene), hs.ordered⟩⟩

/-- A list of numbers that fall has no more elements than there are numbers for it. -/
theorem length_le_of_falling {l : List Nat} {n : Nat} (h : l.Pairwise (· > ·))
    (hle : ∀ x ∈ l, x ≤ n) : l.length ≤ n + 1 := by
  have hnodup : l.Nodup := h.imp fun hgt => Nat.ne_of_gt hgt
  have hsubset : l ⊆ List.range (n + 1) := fun x hx => List.mem_range.2 (Nat.lt_succ_of_le (hle x hx))
  exact (hnodup.subperm hsubset).length_le.trans_eq List.length_range

/-- In one visit of a cursor the mailer is called once more than the policy allows to try again, at
most. -/
theorem Prodded.calls_le (h : Prodded svc (· ≠ .outOfRange) s)
    (hlimit : svc.retry.limit.toNat < 2 ^ 32 - 1) (key : CursorKey) (n : Nat) :
    s.moments.countP (·.callsIn key n) ≤ svc.retry.limit.toNat + 1 := by
  let lines (m : Moment) : Nat :=
    ((m.world.cursors.find? key).map fun c => c.visits.present.length).getD 0
  have hlines : ∀ {m : Moment} {c : Cursor}, m.world.cursors.find? key = some c →
      lines m = c.visits.present.length := by
    intro m c hc
    show ((m.world.cursors.find? key).map _).getD 0 = _
    rw [hc]
    rfl
  let calls := s.moments.filter (·.callsIn key n)
  have hfalling : (calls.map lines).Pairwise (· > ·) := by
    refine List.pairwise_map.2 ((h.climbing.ordered.filter _).imp_of_mem ?_)
    intro m' m hm' hm hfurther
    obtain ⟨⟨now', hscene'⟩, c', hc', hvisit'⟩ := Moment.of_callsIn (List.mem_filter.1 hm').2
    obtain ⟨⟨now, hscene⟩, c, hc, hvisit⟩ := Moment.of_callsIn (List.mem_filter.1 hm).2
    rw [hlines hc, hlines hc']
    exact (hfurther key now' now c' c hscene' hscene hc' hc).present_lt (hvisit'.trans hvisit.symm)
  have hbound : ∀ x ∈ calls.map lines, x ≤ svc.retry.limit.toNat := by
    intro x hx
    obtain ⟨m, hm, rfl⟩ := List.mem_map.1 hx
    obtain ⟨hmem, hcalls⟩ := List.mem_filter.1 hm
    obtain ⟨⟨now, hscene⟩, c, hc, -⟩ := Moment.of_callsIn hcalls
    obtain ⟨handover, hd⟩ := h.punctual.calls m hmem key now hscene
    obtain rfl : handover.cursor = c := Option.some.inj (hd.stored.symm.trans hc)
    obtain ⟨g, hg, hwf, hstayed⟩ := (h.punctual.moments m hmem).find hc
    obtain rfl : handover.graph = g := Option.some.inj (hd.here.version.symm.trans hg)
    have hstay := hstayed.stay hd.sendable.running hd.here.step
    rw [hlines hc, ← hstay.toNat_retries hd.mails hlimit]
    exact (hstay.of_mail hd.mails).2.2
  rw [List.countP_eq_length_filter, ← List.length_map lines]
  exact length_le_of_falling hfalling hbound

/-- **The retry budget is exact.** In a run in which no time was out of range, at every moment every
cursor keeps to its budget. In one visit the mailer is called once more than the policy allows to try
again, at most. A trigger for a cursor at a mail does nothing as long as the mail is not due, and
otherwise it brings about one attempt: unless the cursor is halted meanwhile, the answer and the number
of failed attempts before it in that visit say what becomes of it. -/
theorem Prodded.budget_exact (h : Prodded svc (· ≠ .outOfRange) s)
    (hlimit : svc.retry.limit.toNat < 2 ^ 32 - 1) :
    (∀ m ∈ s.moments, ∀ key c, m.world.cursors.find? key = some c →
      ∃ g, m.world.flows.find? c.flowId = some g ∧ c.Budgeted svc.retry g) ∧
    (∀ key n, s.moments.countP (·.callsIn key n) ≤ svc.retry.limit.toNat + 1) ∧
    ∀ c g node mail trigger now, s.world.cursors.find? c.key = some c → c.state.terminal = false →
      c.At s.world.flows g node → node.action = .email mail →
      (c.mailDue? node trigger now = none →
        (Engine.execute svc.recording g c.key trigger now).on s = (.ok .ignored, s)) ∧
      (∀ lead, c.mailDue? node trigger now = some mail →
        s.world.leads.find? c.leadId = some lead →
        ∃ answer t b, (Engine.attempt svc.recording c.key mail lead now).on s = (.ok answer, t) ∧
          t.world.cursors.find? c.key = some b ∧
          (b.state.terminal = false → b = { c with counters := b.counters } ∧
            ∃ d, ((Engine.execute svc.recording g c.key trigger now).on s).2.world.cursors.find?
                c.key = some d ∧
              b.Tried svc.retry g node now answer
                ((Engine.execute svc.recording g c.key trigger now).on s).1 d)) ∧
      ((s.world.status c.campaignId).halts = false →
        (Engine.dispatchOnce svc.recording c.key trigger now).on s =
          (Engine.execute svc.recording g c.key trigger now).on s) := by
  have hs := h.punctual
  refine ⟨fun m hm key c hc => ?_, h.calls_le hlimit, fun c g node mail trigger now hc hr hat ha =>
    ⟨Engine.execute_undue hc hr hat.step ha, fun lead hdue hlead => ?_,
      Engine.dispatchOnce_eq_execute hc hat.version⟩⟩
  · obtain ⟨g, hg, hwf, hstayed⟩ := (hs.moments m hm).find hc
    exact ⟨g, hg, hstayed.budgeted hwf hg hlimit⟩
  · obtain ⟨g', hg', hwf, hstayed⟩ := hs.stayed.find hc
    obtain rfl : g' = g := Option.some.inj (hg'.symm.trans hat.version)
    obtain ⟨hcount, hle⟩ := (hstayed.budgeted hwf hg' hlimit).spent hr node hat.step ⟨mail, ha⟩
    exact Engine.execute_tried hc hat hdue hlead hcount hle hlimit

/-- In a run in which a first attempt failed, it is the only one and counted as one. -/
theorem Prodded.budget_exact_faltered :
    (∃ c g, Session.faltered.world.cursors.find? ⟨.ofNat 0, "ada"⟩ = some c ∧ c.retries = 1 ∧
      Session.faltered.world.flows.find? c.flowId = some g ∧
      c.Budgeted Services.faltering.retry g) ∧
    Session.faltered.moments.countP (·.callsIn ⟨.ofNat 0, "ada"⟩ 0) = 1 ∧
    1 ≤ Services.faltering.retry.limit.toNat + 1 := by
  have hretries : (Session.faltered.world.cursors.find? ⟨.ofNat 0, "ada"⟩).map Cursor.retries =
      some 1 := by decide +kernel
  have hcalls : Session.faltered.moments.countP (·.callsIn ⟨.ofNat 0, "ada"⟩ 0) = 1 := by
    decide +kernel
  obtain ⟨c, hc, hone⟩ := Option.map_eq_some_iff.1 hretries
  have hrun : Prodded .faltering (· ≠ .outOfRange) .faltered := (run_faltered _).prodded
  obtain ⟨hbudget, hle, -⟩ := hrun.budget_exact (by decide)
  obtain ⟨g, hg, hkept⟩ := hbudget ⟨none, Session.faltered.world⟩ List.mem_cons_self _ c hc
  exact ⟨⟨c, g, hc, hone, hg, hkept⟩, hcalls, hcalls ▸ hle ⟨.ofNat 0, "ada"⟩ 0⟩

/-! ## Limits of the budget -/

/-- A mail and nothing after it. -/
def Document.letter : Document where
  nodes := [⟨"intro", .email ⟨none, "Hello", "Hello"⟩⟩]
  edges := []

/-- The run in which the only mail of a flow is accepted at the second attempt. -/
def Session.lettered : Session (Nat × List Moment) :=
  [Operation.activate (.ofNat 7) .letter .epoch, .enroll (.ofNat 7) .ada .epoch,
    .tick 10 .secondDay].foldl (fun s op => op.next .faltering s) (.start 0 0)

theorem run_lettered (allowed : Fault → Prop) : Run .faltering allowed .lettered :=
  (((Run.start 0 0).succeed (.activate (.ofNat 7) .letter .epoch) rfl (by decide +kernel)).succeed
    (.enroll (.ofNat 7) .ada .epoch) trivial (by decide +kernel)).succeed (.tick 10 .secondDay) trivial
      (by decide +kernel)

/-- An engine whose mails all fail, and that would wait for longer than there are instants before the
only other attempt. -/
def Services.strained : Services Nat where
  mailer := { logMailer with send := fun n _ _ => (⟨.error (.transient "busy"), []⟩, n + 1) }
  renderer := .ofTable .empty
  retry := ⟨1, .ofSeconds 9000000000000000 (by decide), .ofSeconds 9000000000000000 (by decide)⟩

/-- The run in which the mail of a flow is attempted three times with that engine. -/
def Session.strained : Session (Nat × List Moment) :=
  [Operation.activate (.ofNat 7) .letter .epoch, .enroll (.ofNat 7) .ada .epoch,
    .recover .epoch, .recover .epoch].foldl (fun s op => op.next .strained s) (.start 0 0)

theorem run_strained : Run .strained (fun _ => True) .strained :=
  ((((Run.start 0 0).step (.activate (.ofNat 7) .letter .epoch) rfl fun _ _ => trivial).step
    (.enroll (.ofNat 7) .ada .epoch) trivial fun _ _ => trivial).step (.recover .epoch) trivial
      fun _ _ => trivial).step (.recover .epoch) trivial fun _ _ => trivial

/-- A cursor whose flow is over with its last mail keeps the count of the attempts that failed. And
where a time is out of range the attempts that fail are not counted. -/
theorem Prodded.budget_limits :
    (¬ ∀ s : Session (Nat × List Moment), Prodded .faltering (· ≠ .outOfRange) s →
      ∀ key c, s.world.cursors.find? key = some c →
        c.history.getLast?.map Step.outcome = some "sent" → c.retries = 0) ∧
    ¬ ∀ s : Session (Nat × List Moment), Prodded .strained (fun _ => True) s →
      ∀ key n, s.moments.countP (·.callsIn key n) ≤ Services.strained.retry.limit.toNat + 1 := by
  have hlettered : (Session.lettered.world.cursors.find? ⟨.ofNat 0, "ada"⟩).map
      (fun c => (c.history.getLast?.map Step.outcome, c.retries)) = some (some "sent", 1) := by
    decide +kernel
  have hstrained : ¬ Session.strained.moments.countP (·.callsIn ⟨.ofNat 0, "ada"⟩ 0) ≤
      Services.strained.retry.limit.toNat + 1 := by decide +kernel
  refine ⟨fun hreset => ?_, fun hle => hstrained (hle _ run_strained.prodded _ _)⟩
  obtain ⟨c, hc, hlast⟩ := Option.map_eq_some_iff.1 hlettered
  obtain ⟨hsent, hone⟩ := Prod.mk.inj hlast
  have hzero := hreset .lettered (run_lettered _).prodded _ c hc hsent
  rw [hone] at hzero
  cases hzero

end MailCampaign
