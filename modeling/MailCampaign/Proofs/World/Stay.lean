import MailCampaign.Proofs.World.Visits
import Mathlib.Algebra.Group.Nat.Defs

/-!
# The stays of cursors

While a cursor stays at a step it logs what it waits for: that a delay was scheduled, that a window
was opened, that a mail is to be tried again. From these lines the number of failed attempts and the
timer can be told (`Node.Stay`), and the line with which the cursor leaves is not earlier than the
timer, unless a signal answered a condition (`Node.Leaving`).

1. A turn makes the stay longer by a line, ends it, or leaves it alone (`Cursor.Stayed.turn`). So
   along every course each visit is a stay with at most one more line.
2. A line that leaves a step comes right after the last line of its stay (`Visits.mem_past`).
3. Each line of a stay at a mail is not earlier than the timer that the one before it set
   (`Node.Stay.again`).
-/

namespace MailCampaign

/-- A line of history with which a cursor starts to wait at its step. -/
def Step.Parks (s : Step) : Prop :=
  s.outcome ∈ ["delay_scheduled", "condition_entered", "send_retry"]

instance (s : Step) : Decidable s.Parks := inferInstanceAs (Decidable (_ ∈ _))

theorem Step.Parks.not_departs {s : Step} (h : s.Parks) : ¬ s.Departs := by
  unfold Step.Parks at h
  unfold Step.Departs
  simp only [List.mem_cons, List.not_mem_nil, or_false] at h
  rcases h with h | h | h <;> rw [h] <;> simp [Branch.name]

/-- A cursor that is canceled does not start to wait. -/
theorem Step.not_parks_canceled (nodeId reason : String) (now : Instant) :
    ¬ Step.Parks ⟨nodeId, "cursor", "canceled: " ++ reason, now⟩ := by
  simp only [Step.Parks, List.mem_cons, List.not_mem_nil, or_false, ← String.toList_inj,
    String.toList_append]
  simp

/-- A span that is not negative does not lead to an earlier instant. -/
theorem Instant.le_add? {t u : Instant} {d : Span} (hd : 0 ≤ d.nanos) (h : t.add? d = some u) :
    t ≤ u := by
  by_cases hzero : d.nanos = 0
  · rw [Instant.add?_of_zero hzero] at h
    rw [Option.some.inj h]
    exact Int.le_refl _
  · have hlt := Instant.lt_add? (by omega) h
    rw [Instant.lt_iff] at hlt
    exact Instant.le_iff.2 (Int.le_of_lt hlt)

/-! ## Stays -/

/-- The lines that a cursor logs while it stays at a step, with the number of failed attempts at its
mail and the time for which its timer is set. -/
inductive Node.Stay (policy : RetryPolicy) (n : Node) :
    List Step → UInt32 → Option Instant → Prop
  /-- It has just come there. -/
  | came : Stay policy n [] 0 none
  /-- It waits for a delay. -/
  | delayed {wait : Wait} {s : Step} {due : Instant} : n.action = .delay wait →
      s.nodeId = n.id → s.outcome = "delay_scheduled" → s.time.add? wait.span = some due →
      Stay policy n [s] 0 (some due)
  /-- It waits at a condition. -/
  | watched {k : Condition} {s : Step} {due : Instant} : n.action = .condition k →
      s.nodeId = n.id → s.outcome = "condition_entered" → s.time.add? k.wait.span = some due →
      Stay policy n [s] 0 (some due)
  /-- It waits for another attempt at its mail. -/
  | retried {l : List Step} {retries : UInt32} {last : Option Instant} {s : Step} {due : Instant} :
      n.Mails → Stay policy n l retries last → (∀ t, last = some t → t ≤ s.time) →
      s.nodeId = n.id → s.outcome = "send_retry" → retries + 1 ≤ policy.limit →
      s.time.add? (policy.backoff (retries + 1)) = some due →
      Stay policy n (l ++ [s]) (retries + 1) (some due)

/-- The line with which a cursor leaves a step, in view of the time for which its timer was set. -/
inductive Node.Leaving (n : Node) (due : Option Instant) (s : Step) : Prop
  | sent : n.Mails → s.outcome = "sent" → (∀ t, due = some t → t ≤ s.time) → Leaving n due s
  | elapsed {wait : Wait} {t : Instant} : n.action = .delay wait → s.outcome = "delay_elapsed" →
      due = some t → t ≤ s.time → Leaving n due s
  | answered {k : Condition} {branch : Branch} : n.action = .condition k → branch ≠ .next →
      s.outcome = branch.name →
      ((Verdict.onTimeout k.mode).branch? = some branch → ∃ t, due = some t ∧ t ≤ s.time) →
      Leaving n due s

namespace Node.Stay

variable {policy : RetryPolicy} {n : Node} {l : List Step} {retries : UInt32} {due : Option Instant}

/-- A cursor without a timer has only just come to its step. -/
theorem of_none (h : n.Stay policy l retries none) : l = [] ∧ retries = 0 := by
  cases h with
  | came => exact ⟨rfl, rfl⟩

theorem lines (h : n.Stay policy l retries due) : ∀ s ∈ l, s.nodeId = n.id ∧ s.Parks := by
  induction h with
  | came => exact fun s hs => absurd hs List.not_mem_nil
  | delayed _ hn ho => exact List.forall_mem_singleton.2 ⟨hn, by simp [Step.Parks, ho]⟩
  | watched _ hn ho => exact List.forall_mem_singleton.2 ⟨hn, by simp [Step.Parks, ho]⟩
  | retried _ _ _ hn ho _ _ ih =>
    intro s hs
    rcases List.mem_append.1 hs with hs | hs
    · exact ih s hs
    · rw [List.mem_singleton.1 hs]
      exact ⟨hn, by simp [Step.Parks, ho]⟩

/-- The one line of a cursor that waits for a delay. -/
theorem of_delay {wait : Wait} {t : Instant} (h : n.Stay policy l retries (some t))
    (ha : n.action = .delay wait) :
    ∃ s, l = [s] ∧ s.nodeId = n.id ∧ s.outcome = "delay_scheduled" ∧
      s.time.add? wait.span = some t := by
  cases h with
  | delayed ha' hn ho ht =>
    obtain rfl : _ = wait := Action.delay.inj (ha'.symm.trans ha)
    exact ⟨_, rfl, hn, ho, ht⟩
  | watched ha' => rw [ha] at ha'; cases ha'
  | retried hm =>
    obtain ⟨mail, ha'⟩ := hm
    rw [ha] at ha'
    cases ha'

/-- The one line of a cursor that waits at a condition. -/
theorem of_condition {k : Condition} {t : Instant} (h : n.Stay policy l retries (some t))
    (ha : n.action = .condition k) :
    ∃ s, l = [s] ∧ s.nodeId = n.id ∧ s.outcome = "condition_entered" ∧
      s.time.add? k.wait.span = some t := by
  cases h with
  | delayed ha' => rw [ha] at ha'; cases ha'
  | watched ha' hn ho ht =>
    obtain rfl : _ = k := Action.condition.inj (ha'.symm.trans ha)
    exact ⟨_, rfl, hn, ho, ht⟩
  | retried hm =>
    obtain ⟨mail, ha'⟩ := hm
    rw [ha] at ha'
    cases ha'

/-- A stay whose last line tells of a delay lasts as long as that delay. -/
theorem of_scheduled (h : n.Stay policy l retries due) {s : Step} (hs : l.getLast? = some s)
    (ho : s.outcome = "delay_scheduled") :
    ∃ wait t, n.action = .delay wait ∧ due = some t ∧ s.time.add? wait.span = some t := by
  cases h with
  | came => cases hs
  | @delayed wait u due ha _ _ ht =>
    obtain rfl : u = s := Option.some.inj hs
    exact ⟨wait, due, ha, rfl, ht⟩
  | @watched _ u _ _ _ ho' =>
    obtain rfl : u = s := Option.some.inj hs
    exact absurd (ho.symm.trans ho') (by decide)
  | retried _ _ _ _ ho' =>
    rw [List.getLast?_concat] at hs
    rw [Option.some.inj hs] at ho'
    exact absurd (ho.symm.trans ho') (by decide)

/-- Each line at a mail tells of a failed attempt, and there are no more than the policy allows. -/
theorem of_mail (h : n.Stay policy l retries due) (hm : n.Mails) :
    (∀ s ∈ l, s.outcome = "send_retry") ∧ retries = .ofNat l.length ∧
      retries.toNat ≤ policy.limit.toNat := by
  obtain ⟨mail, hmail⟩ := hm
  induction h with
  | came => exact ⟨fun s hs => absurd hs List.not_mem_nil, rfl, Nat.zero_le _⟩
  | delayed ha => rw [hmail] at ha; cases ha
  | watched ha => rw [hmail] at ha; cases ha
  | retried _ _ _ _ ho hle _ ih =>
    refine ⟨fun s hs => ?_, ?_, UInt32.le_iff_toNat_le.1 hle⟩
    · rcases List.mem_append.1 hs with hs | hs
      · exact ih.1 s hs
      · rw [List.mem_singleton.1 hs, ho]
    · rw [ih.2.1, List.length_append, List.length_singleton, UInt32.ofNat_add]
      rfl

/-- The number of failed attempts is the number of their lines, if it cannot overflow. -/
theorem toNat_retries (h : n.Stay policy l retries due) (hm : n.Mails)
    (hlimit : policy.limit.toNat < 2 ^ 32 - 1) : retries.toNat = l.length := by
  obtain ⟨mail, hmail⟩ := hm
  induction h with
  | came => rfl
  | delayed ha => rw [hmail] at ha; cases ha
  | watched ha => rw [hmail] at ha; cases ha
  | retried _ hstay _ _ _ _ _ ih =>
    have hle := (hstay.of_mail ⟨mail, hmail⟩).2.2
    rw [UInt32.toNat_add, ih, List.length_append, List.length_singleton]
    rw [ih] at hle
    exact Nat.mod_eq_of_lt (by show _ + 1 < 2 ^ 32; omega)

/-- The next attempt is not earlier than a failed one put it, and the timer stands for the last. -/
theorem again {before later : List Step} {s : Step}
    (h : n.Stay policy (before ++ s :: later) retries due) (hs : s.outcome = "send_retry") :
    ∃ t, s.time.add? (policy.backoff (.ofNat (before.length + 1))) = some t ∧
      (∀ next, later.head? = some next → t ≤ next.time) ∧ (later = [] → due = some t) := by
  generalize hl : before ++ s :: later = l at h
  -- The line of a delay or of a window is the only one of its stay, and is no failed attempt.
  have hsingle : ∀ u : Step, before ++ s :: later = [u] → u.outcome = "send_retry" := by
    intro u hu
    obtain ⟨-, hcons⟩ | ⟨-, hnil⟩ := List.append_eq_singleton_iff.1 hu
    · rw [← (List.cons.inj hcons).1, hs]
    · cases hnil
  induction h generalizing later with
  | came => exact absurd hl (List.append_ne_nil_of_right_ne_nil before (List.cons_ne_nil s later))
  | @delayed _ u _ _ _ ho => exact absurd ((hsingle u hl).symm.trans ho) (by decide)
  | @watched _ u _ _ _ ho => exact absurd ((hsingle u hl).symm.trans ho) (by decide)
  | @retried l retries last u due hm hstay hle _ _ _ ht ih =>
    rcases List.eq_nil_or_concat' later with rfl | ⟨later, v, rfl⟩
    · obtain ⟨rfl, rfl⟩ := List.append_singleton_inj.1 hl
      rw [(hstay.of_mail hm).2.1] at ht
      refine ⟨due, ?_, fun next hnext => (nomatch hnext), fun _ => rfl⟩
      rw [UInt32.ofNat_add]
      exact ht
    · rw [← List.cons_append, ← List.append_assoc] at hl
      obtain ⟨hinner, rfl⟩ := List.append_singleton_inj.1 hl
      obtain ⟨t, hadd, hnext, hdue⟩ := ih hinner fun w hw =>
        (hstay.of_mail hm).1 w (by rw [← hinner, hw]; exact List.mem_singleton_self w)
      refine ⟨t, hadd, fun next hhead => ?_, fun hnil => absurd hnil (by simp)⟩
      cases later with
      | nil =>
        obtain rfl : v = next := Option.some.inj hhead
        exact hle t (hdue rfl)
      | cons w rest => exact hnext next hhead

/-- If the waits after the later attempts are not negative, the timer is not earlier than any failed
attempt put the next one. -/
theorem not_before {before later : List Step} {s : Step} {t last : Instant}
    (h : n.Stay policy (before ++ s :: later) retries (some last)) (hs : s.outcome = "send_retry")
    (hm : n.Mails) (ht : s.time.add? (policy.backoff (.ofNat (before.length + 1))) = some t)
    (hpos : ∀ i, before.length + 1 < i → i ≤ before.length + 1 + later.length →
      0 ≤ (policy.backoff (.ofNat i)).seconds) : t ≤ last := by
  induction later generalizing before s t with
  | nil =>
    obtain ⟨t', ht', -, hdue⟩ := h.again hs
    obtain rfl : t' = t := Option.some.inj (ht'.symm.trans ht)
    rw [Option.some.inj (hdue rfl)]
    exact Int.le_refl _
  | cons next later ih =>
    obtain ⟨t', ht', hnext, -⟩ := h.again hs
    obtain rfl : t' = t := Option.some.inj (ht'.symm.trans ht)
    have hsplit : before ++ s :: next :: later = (before ++ [s]) ++ next :: later := by simp
    rw [hsplit] at h
    have hretry : next.outcome = "send_retry" := (h.of_mail hm).1 next (by simp)
    obtain ⟨u, hu, -⟩ := h.again hretry
    have hlength : (before ++ [s]).length = before.length + 1 := List.length_append
    have hlast : u ≤ last := ih h hretry hu fun i hlt hle =>
      hpos i (by omega) (by rw [List.length_cons]; omega)
    have hwait : next.time ≤ u :=
      Instant.le_add? (Span.seconds_nonneg.1 (hpos _ (by omega) (by rw [List.length_cons]; omega))) hu
    exact Int.le_trans (hnext next rfl) (Int.le_trans hwait hlast)

end Node.Stay

/-! ## Visits -/

namespace Visits

/-- A line that leaves a step ends the visit to which the last lines before it belong. -/
theorem mem_past {s : Step} (h : s.Departs) (before rest : List Step) :
    ⟨(of before).present, s⟩ ∈ (of (before ++ s :: rest)).past := by
  induction rest using List.reverseRecOn with
  | nil =>
    rw [of_concat, add_departs h]
    exact List.mem_append_right _ (List.mem_singleton_self _)
  | append_singleton rest t ih =>
    rw [← List.cons_append, ← List.append_assoc, of_concat]
    by_cases ht : t.Departs
    · rw [add_departs ht]
      exact List.mem_append_left _ ih
    · rw [add_stays ht]
      exact ih

/-- The last line of the present visit is the last one of all. -/
theorem getLast?_of_present {history : List Step} {s : Step}
    (h : (of history).present.getLast? = some s) : history.getLast? = some s := by
  rw [← flatten_of history, List.getLast?_append, h]
  rfl

end Visits

namespace Cursor

variable {policy : RetryPolicy} {flows : FlowStore} {c d : Cursor} {g : Graph} {node n : Node}
  {now : Instant} {branch : Branch} {outcome : String} {s : Step}

/-- The visits of a cursor in a version of a flow are stays. -/
structure Stayed (policy : RetryPolicy) (g : Graph) (c : Cursor) : Prop where
  past : ∀ v ∈ c.visits.past, ∃ n retries due, g.node? v.leaving.nodeId = some n ∧
    n.Stay policy v.stay retries due ∧ n.Leaving due v.leaving
  running : c.state.terminal = false → ∃ n, g.node? c.nodeId = some n ∧
    n.Stay policy c.visits.present c.retries c.nextRun
  /-- A cursor that ended left its step, or its last line tells of its end. -/
  ended : c.state.terminal = true → c.visits.present = [] ∨
    ∃ n stay retries due s, g.node? c.nodeId = some n ∧ n.Stay policy stay retries due ∧
      c.visits.present = stay ++ [s] ∧ ¬ s.Parks ∧ ¬ s.Departs

/-- A cursor whose mail may be sent has no timer that is not due. -/
theorem Sendable.due (h : c.Sendable now) (hwf : c.WellFormed flows) :
    ∀ t, c.nextRun = some t → t ≤ now := by
  intro t ht
  rcases h with he | ⟨-, hdue⟩
  · rw [(hwf.entering he).1] at ht
    cases ht
  · rw [dueAt, ht] at hdue
    exact of_decide_eq_true hdue

/-- The line with which a cursor leaves its step is not earlier than its timer, unless a signal
answered its condition. -/
theorem Leaves.leaving (h : c.Leaves node now branch outcome) (hwf : c.WellFormed flows)
    (hat : c.At flows g node) (kind : String) :
    node.Leaving c.nextRun ⟨c.nodeId, kind, outcome, now⟩ := by
  cases h with
  | sent ha hs => exact .sent ⟨_, ha⟩ rfl (hs.due hwf)
  | elapsed ha _ hdue =>
    unfold dueAt at hdue
    split at hdue
    · next t ht => exact .elapsed ha rfl ht (of_decide_eq_true hdue)
    · cases hdue
  | @answered k w cause branch ha hs hw _ hb =>
    have hv := Change.branch?_of_decisive hb
    refine .answered ha (Verdict.branch?_ne_next hv) rfl fun hbranch => ?_
    have hfit := (hwf.fits hat).1
    unfold Fits at hfit
    rw [hs] at hfit
    obtain ⟨k', w', -, hw', hwindow⟩ := hfit
    obtain rfl : w' = w := Option.some.inj (hw'.symm.trans hw)
    exact ⟨w'.deadline, hwindow.due,
      Verdict.deadline_le_of_evaluate (Verdict.eq_onTimeout hv hbranch)⟩

namespace Stayed

theorem new (g : Graph) (id campaign : Uuid) (leadId : String) (now : Instant) :
    (Engine.newCursor id g campaign leadId now).Stayed policy g where
  past := fun _ h => absurd h List.not_mem_nil
  running := fun _ => ⟨g.entry, g.node?_entry, .came⟩
  ended := nofun

/-- At its step the stay of a cursor that runs. -/
theorem stay (h : c.Stayed policy g) (hr : c.state.terminal = false)
    (hn : g.node? c.nodeId = some n) : n.Stay policy c.visits.present c.retries c.nextRun := by
  obtain ⟨n', hn', hstay⟩ := h.running hr
  rwa [Option.some.inj (hn'.symm.trans hn)] at hstay

/-- A cursor that leaves its step. -/
theorem left (h : c.Stayed policy g) (hr : c.state.terminal = false)
    (hn : g.node? c.nodeId = some n) (hhistory : d.history = c.history ++ [s])
    (hs : s.nodeId = c.nodeId) (hdeparts : s.Departs) (hl : n.Leaving c.nextRun s)
    (hrun : d.state.terminal = false → ∃ next, g.node? d.nodeId = some next ∧
      d.retries = 0 ∧ d.nextRun = none) : d.Stayed policy g := by
  have hvisits : d.visits = ⟨c.visits.past ++ [⟨c.visits.present, s⟩], []⟩ := by
    rw [visits_concat hhistory, Visits.add_departs hdeparts]
  refine ⟨fun v hv => ?_, fun hd => ?_, fun _ => .inl (by rw [hvisits])⟩
  · rw [hvisits] at hv
    rcases List.mem_append.1 hv with hv | hv
    · exact h.past v hv
    · rw [List.mem_singleton.1 hv]
      exact ⟨n, c.retries, c.nextRun, hs ▸ hn, h.stay hr hn, hl⟩
  · obtain ⟨next, hnext, hretries, hrun⟩ := hrun hd
    rw [hvisits, hretries, hrun]
    exact ⟨next, hnext, .came⟩

/-- A cursor that starts to wait at its step. -/
theorem parked (h : c.Stayed policy g) (hn : g.node? c.nodeId = some n)
    (hhistory : d.history = c.history ++ [s]) (hnode : d.nodeId = c.nodeId) (hparks : s.Parks)
    (hrun : d.state.terminal = false)
    (hstay : n.Stay policy (c.visits.present ++ [s]) d.retries d.nextRun) : d.Stayed policy g := by
  have hvisits : d.visits = ⟨c.visits.past, c.visits.present ++ [s]⟩ := by
    rw [visits_concat hhistory, Visits.add_stays hparks.not_departs]
  refine ⟨?_, fun _ => ⟨n, hnode ▸ hn, by rwa [hvisits]⟩, fun ht => ?_⟩
  · rw [hvisits]
    exact h.past
  · rw [hrun] at ht
    cases ht

/-- A cursor that ends at its step. -/
theorem stopped (h : c.Stayed policy g) (hr : c.state.terminal = false)
    (hhistory : d.history = c.history ++ [s]) (hnode : d.nodeId = c.nodeId) (hparks : ¬ s.Parks)
    (hdeparts : ¬ s.Departs) (hended : d.state.terminal = true) : d.Stayed policy g := by
  have hvisits : d.visits = ⟨c.visits.past, c.visits.present ++ [s]⟩ := by
    rw [visits_concat hhistory, Visits.add_stays hdeparts]
  obtain ⟨n, hn, hstay⟩ := h.running hr
  refine ⟨?_, fun hd => ?_, fun _ => .inr ⟨n, c.visits.present, c.retries, c.nextRun, s,
    hnode ▸ hn, hstay, by rw [hvisits], hparks, hdeparts⟩⟩
  · rw [hvisits]
    exact h.past
  · rw [hended] at hd
    cases hd

theorem canceled (h : c.Stayed policy g) (hr : c.state.terminal = false) (reason : String)
    (now : Instant) : (Change.canceled reason now c).Stayed policy g :=
  h.stopped hr rfl rfl (Step.not_parks_canceled _ _ _) (Step.not_departs_canceled _ _ _) rfl

theorem counted (h : c.Stayed policy g) (e : Engagement) :
    (World.counted e c).Stayed policy g := by
  rw [counted_eq]
  exact ⟨h.past, h.running, h.ended⟩

/-- The visits of a cursor go on being stays as it takes turns. -/
theorem turn (h : c.Stayed policy g) (hwf : c.WellFormed flows)
    (hg : flows.find? c.flowId = some g) (ht : c.Turn policy flows d) : d.Stayed policy g := by
  have hr := ht.running
  -- A cursor that has just come to its step has logged nothing there.
  have hentered : ∀ {n}, g.node? c.nodeId = some n → c.state.entering = true →
      c.visits.present = [] ∧ c.retries = 0 := by
    intro n hn he
    have hstay := h.stay hr hn
    rw [(hwf.entering he).1] at hstay
    exact hstay.of_none
  cases ht with
  | @moved g' node next branch outcome now hat hl hnext =>
    obtain rfl : g' = g := Option.some.inj (hat.version.symm.trans hg)
    exact h.left hr hat.step rfl rfl (hl.departs _) (hl.leaving hwf hat _) fun _ =>
      ⟨next, Graph.node?_of_next? hnext, rfl, rfl⟩
  | @completed g' node branch outcome now hat hl =>
    obtain rfl : g' = g := Option.some.inj (hat.version.symm.trans hg)
    exact h.left hr hat.step rfl rfl (hl.departs _) (hl.leaving hwf hat _) nofun
  | @delayed g' node wait now fireAt hat ha he hadd =>
    obtain rfl : g' = g := Option.some.inj (hat.version.symm.trans hg)
    obtain ⟨hnone, hzero⟩ := hentered hat.step he
    refine h.parked hat.step rfl rfl (by simp [Step.Parks]) rfl ?_
    rw [hnone]
    show node.Stay policy _ c.retries _
    rw [hzero]
    exact .delayed ha hat.nodeId rfl hadd
  | @watched g' node k now deadline hat ha he hadd =>
    obtain rfl : g' = g := Option.some.inj (hat.version.symm.trans hg)
    obtain ⟨hnone, hzero⟩ := hentered hat.step he
    refine h.parked hat.step rfl rfl (by simp [Step.Parks]) rfl ?_
    rw [hnone]
    show node.Stay policy _ c.retries _
    rw [hzero]
    exact .watched ha hat.nodeId rfl hadd
  | @retried g' node mail now retryAt hat ha hs hle hadd =>
    obtain rfl : g' = g := Option.some.inj (hat.version.symm.trans hg)
    exact h.parked hat.step rfl rfl (by simp [Step.Parks]) rfl
      (.retried ⟨mail, ha⟩ (h.stay hr hat.step) (hs.due hwf) hat.nodeId rfl hle hadd)
  | noted => exact ⟨h.past, h.running, h.ended⟩
  | reached =>
    exact h.stopped hr rfl rfl (by simp [Step.Parks]) (by simp [Step.Departs, Branch.name]) rfl
  | failed =>
    exact h.stopped hr rfl rfl (by simp [Step.Parks]) (by simp [Step.Departs, Branch.name]) rfl

end Stayed

end Cursor

/-! ## Along a course -/

namespace World

variable {policy : RetryPolicy} {scope : Scope} {w v : World}

/-- A sound world in which the visits of all cursors are stays. -/
structure Stayed (policy : RetryPolicy) (w : World) : Prop where
  sound : w.Sound
  each : w.Each (Cursor.Stayed policy)

theorem stayed_empty (policy : RetryPolicy) (nextId : Nat) : (empty nextId).Stayed policy :=
  ⟨sound_empty nextId, each_empty _ nextId⟩

theorem Shift.stayed (h : w.Shift policy scope v) (hw : w.Stayed policy) : v.Stayed policy where
  sound := h.sound hw.sound
  each := h.each hw.sound (fun g _ _ _ _ => .new g _ _ _ _)
    (fun _ _ _ hg hwf ht hc => hc.turn hwf hg ht) (fun _ _ reason now hr hc => hc.canceled hr reason now)
    (fun _ _ e hc => hc.counted e) hw.each

theorem Course.stayed (h : w.Course policy scope v) (hw : w.Stayed policy) : v.Stayed policy :=
  h.preserves hw fun _ _ h => h.stayed

/-- A stored cursor with its version. -/
theorem Stayed.find {key : CursorKey} {c : Cursor} (hw : w.Stayed policy)
    (hc : w.cursors.find? key = some c) :
    ∃ g, w.flows.find? c.flowId = some g ∧ c.WellFormed w.flows ∧ c.Stayed policy g := by
  have hwf := hw.sound key c hc
  obtain ⟨g, node, hat, -⟩ := hwf.placed
  exact ⟨g, hat.version, hwf, hw.each key c g hc hat.version⟩

end World

end MailCampaign
