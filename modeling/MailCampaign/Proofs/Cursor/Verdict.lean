import MailCampaign.Cursor.Verdict
import Mathlib.Data.List.Perm.Basic

/-!
# What verdicts rest on

A verdict rests on the watched observations within the window alone: on one that lies no later than the
instant of the question, or else on the end of the window (`evaluate_eq_iff`).

1. What has occurred by an instant has occurred by each later one. At the end of the window it is too late
   for more, since an observation within the window lies before its end. So a verdict that is given once
   stays (`evaluate_stable`), and whoever asks later, on a signal or on a timer, gets the same one.
2. Neither the order nor the number of observations matters, nor do those that the window does not notice
   (`evaluate_congr`).
-/

namespace MailCampaign

theorem Instant.not_le {a b : Instant} : ¬ a ≤ b ↔ b < a := Int.not_le

namespace Verdict

/-- The verdict with the answers exchanged. -/
def swap : Verdict → Verdict
  | yes => no
  | no => yes
  | pending => pending

/-- A window notices an observation: its signal is watched, and it lies within the window, whose ends
belong to it. -/
def Notices (watch : Watch) (opens deadline : Instant) (o : Observation) : Prop :=
  watch.covers o.signal = true ∧ opens ≤ o.time ∧ o.time ≤ deadline

instance (watch : Watch) (opens deadline : Instant) (o : Observation) :
    Decidable (Notices watch opens deadline o) := inferInstanceAs (Decidable (_ ∧ _))

/-- What a verdict as of an instant rests on. -/
inductive Rests (watch : Watch) (mode : MatchMode) (observed : List Observation)
    (opens deadline now : Instant) : Verdict → Prop
  | occurred {o : Observation} : o ∈ observed → Notices watch opens deadline o → o.time ≤ now →
      Rests watch mode observed opens deadline now (onSignal mode)
  | expired : (∀ o ∈ observed, ¬ Notices watch opens deadline o) → deadline ≤ now →
      Rests watch mode observed opens deadline now (onTimeout mode)
  | waiting : (∀ o ∈ observed, Notices watch opens deadline o → now < o.time) → now < deadline →
      Rests watch mode observed opens deadline now pending

variable {watch : Watch} {mode : MatchMode} {observed other more : List Observation} {o : Observation}
  {opens deadline now later : Instant} {v : Verdict}

theorem onTimeout_ne_pending (mode : MatchMode) : onTimeout mode ≠ pending := by
  cases mode <;> nofun

theorem any_counts_iff : observed.any (counts watch opens deadline now) = true ↔
    ∃ o ∈ observed, Notices watch opens deadline o ∧ o.time ≤ now := by
  simp [counts, Notices, and_assoc]

theorem not_notices_iff : ¬ Notices watch opens deadline o ↔
    watch.covers o.signal = false ∨ o.time < opens ∨ deadline < o.time := by
  unfold Notices
  rw [Decidable.not_and_iff_not_or_not, Decidable.not_and_iff_not_or_not, Bool.not_eq_true,
    Instant.not_le, Instant.not_le]

/-- An observation that a window notices lies before its end. -/
theorem Notices.le_of_due (h : Notices watch opens deadline o) (hnow : deadline ≤ now) :
    o.time ≤ now := Int.le_trans h.2.2 hnow

/-- **What verdicts rest on.** -/
theorem evaluate_eq_iff :
    evaluate watch mode observed opens deadline now = v ↔
      Rests watch mode observed opens deadline now v := by
  constructor
  · rintro rfl
    unfold evaluate
    split
    · next hsignal =>
      obtain ⟨o, ho, hn, hle⟩ := any_counts_iff.1 hsignal
      exact .occurred ho hn hle
    · next hnone =>
      rw [any_counts_iff] at hnone
      split
      · next hdue => exact .expired (fun o ho hn => hnone ⟨o, ho, hn, hn.le_of_due hdue⟩) hdue
      · next hopen =>
        refine .waiting (fun o ho hn => ?_) (Instant.not_le.1 hopen)
        exact Instant.not_le.1 fun hle => hnone ⟨o, ho, hn, hle⟩
  · intro h
    unfold evaluate
    cases h with
    | occurred ho hn hle => rw [if_pos (any_counts_iff.2 ⟨_, ho, hn, hle⟩)]
    | expired hnone hdue =>
      rw [if_neg, if_pos hdue]
      rw [any_counts_iff]
      exact fun ⟨o, ho, hn, _⟩ => hnone o ho hn
    | waiting hnone hopen =>
      rw [if_neg, if_neg (Instant.not_le.2 hopen)]
      rw [any_counts_iff]
      exact fun ⟨o, ho, hn, hle⟩ => Instant.not_le.2 (hnone o ho hn) hle

theorem rests_evaluate (watch : Watch) (mode : MatchMode) (observed : List Observation)
    (opens deadline now : Instant) : Rests watch mode observed opens deadline now
      (evaluate watch mode observed opens deadline now) := evaluate_eq_iff.1 rfl

/-! ## Later instants -/

/-- What a verdict rests on stays, unless the window is open. -/
theorem Rests.stays (h : Rests watch mode observed opens deadline now v) (hv : v ≠ pending)
    (hlater : now ≤ later) : Rests watch mode observed opens deadline later v := by
  cases h with
  | occurred ho hn hle => exact .occurred ho hn (Int.le_trans hle hlater)
  | expired hnone hdue => exact .expired hnone (Int.le_trans hdue hlater)
  | waiting _ _ => exact absurd rfl hv

/-- A verdict that is given stays. -/
theorem evaluate_stable (hlater : now ≤ later)
    (h : evaluate watch mode observed opens deadline now ≠ pending) :
    evaluate watch mode observed opens deadline later =
      evaluate watch mode observed opens deadline now :=
  evaluate_eq_iff.2 ((rests_evaluate ..).stays h hlater)

/-- At its end, a window is not open. -/
theorem evaluate_ne_pending (hdue : deadline ≤ now) :
    evaluate watch mode observed opens deadline now ≠ pending := by
  intro h
  generalize hv : pending = v at h
  cases evaluate_eq_iff.1 h with
  | occurred _ _ _ => cases mode <;> cases hv
  | expired _ _ => exact onTimeout_ne_pending mode hv.symm
  | waiting _ hopen => exact Instant.not_le.2 hopen hdue

/-! ## The two modes -/

/-- Both modes rest on the same, and answer the opposite. -/
theorem Rests.swap (h : Rests watch .anyOf observed opens deadline now v) :
    Rests watch .noneOf observed opens deadline now v.swap := by
  cases h with
  | occurred ho hn hle => exact .occurred ho hn hle
  | expired hnone hdue => exact .expired hnone hdue
  | waiting hnone hopen => exact .waiting hnone hopen

theorem evaluate_noneOf (watch : Watch) (observed : List Observation)
    (opens deadline now : Instant) :
    evaluate watch .noneOf observed opens deadline now =
      (evaluate watch .anyOf observed opens deadline now).swap :=
  evaluate_eq_iff.2 (rests_evaluate ..).swap

/-! ## Other observations -/

/-- A verdict rests on the observations that the window notices. -/
theorem Rests.congr (hsame : ∀ o, Notices watch opens deadline o → (o ∈ observed ↔ o ∈ other))
    (h : Rests watch mode observed opens deadline now v) :
    Rests watch mode other opens deadline now v := by
  cases h with
  | occurred ho hn hle => exact .occurred ((hsame _ hn).1 ho) hn hle
  | expired hnone hdue => exact .expired (fun o ho hn => hnone o ((hsame o hn).2 ho) hn) hdue
  | waiting hnone hopen => exact .waiting (fun o ho hn => hnone o ((hsame o hn).2 ho) hn) hopen

theorem evaluate_congr (hsame : ∀ o, Notices watch opens deadline o → (o ∈ observed ↔ o ∈ other)) :
    evaluate watch mode other opens deadline now = evaluate watch mode observed opens deadline now :=
  evaluate_eq_iff.2 ((rests_evaluate ..).congr hsame)

/-- More observations, in any order, do not matter when each of them is there already or is not watched
or lies before the window or after it. -/
theorem evaluate_of_perm (hperm : other.Perm (observed ++ more))
    (hmore : ∀ o ∈ more, o ∈ observed ∨
      watch.covers o.signal = false ∨ o.time < opens ∨ deadline < o.time) :
    evaluate watch mode other opens deadline now =
      evaluate watch mode observed opens deadline now := by
  refine evaluate_congr fun o hn => ?_
  rw [hperm.mem_iff, List.mem_append]
  constructor
  · exact .inl
  · rintro (ho | ho)
    · exact ho
    · rcases hmore o ho with ho | hout
      · exact ho
      · exact absurd hn (not_notices_iff.2 hout)

/-- **A window decides once and for all.** A verdict that is given stays at every later instant. The mode
`none` gives the verdict of the mode `any` with the answers exchanged. Observations may be put into another
order and more may be added, as long as each of these is there already, is not watched or lies before or
after the window. At the end of the window and later there is a verdict, and it is the one for the end if
the window noticed nothing. A watched observation within the window gives the verdict for a signal from
its own instant on, whatever else was observed. -/
theorem window_decides (watch : Watch) (mode : MatchMode) (observed : List Observation)
    (opens deadline now : Instant) :
    (∀ later, now ≤ later → evaluate watch mode observed opens deadline now ≠ pending →
      evaluate watch mode observed opens deadline later =
        evaluate watch mode observed opens deadline now) ∧
    evaluate watch .noneOf observed opens deadline now =
      (evaluate watch .anyOf observed opens deadline now).swap ∧
    (∀ more other, other.Perm (observed ++ more) →
      (∀ o ∈ more, o ∈ observed ∨
        watch.covers o.signal = false ∨ o.time < opens ∨ deadline < o.time) →
      evaluate watch mode other opens deadline now =
        evaluate watch mode observed opens deadline now) ∧
    (deadline ≤ now → evaluate watch mode observed opens deadline now ≠ pending ∧
      ((∀ o ∈ observed, ¬ Notices watch opens deadline o) →
        evaluate watch mode observed opens deadline now = onTimeout mode)) ∧
    (∀ o ∈ observed, Notices watch opens deadline o → o.time ≤ now →
      evaluate watch mode observed opens deadline now = onSignal mode) := by
  refine ⟨fun later hlater h => evaluate_stable hlater h, evaluate_noneOf .., ?_, ?_, ?_⟩
  · intro more other hperm hmore
    exact evaluate_of_perm hperm hmore
  · intro hdue
    exact ⟨evaluate_ne_pending hdue, fun hnone => evaluate_eq_iff.2 (.expired hnone hdue)⟩
  · intro o ho hn hnow
    exact evaluate_eq_iff.2 (.occurred ho hn hnow)

end Verdict

theorem Instant.hour_inRange (hour : Fin 24) :
    firstSecond ≤ Int.ofNat (hour.val * 3600) ∧ Int.ofNat (hour.val * 3600) ≤ lastSecond := by
  have hfirst : firstSecond ≤ 0 := by decide
  have hlast : 86400 ≤ lastSecond := by decide
  have hhour := hour.isLt
  simp only [Int.ofNat_eq_natCast]
  omega

/-- An hour of 1970-01-01. -/
def Instant.onFirstDay (hour : Fin 24) : Instant :=
  { Instant.epoch with seconds := Int.ofNat (hour.val * 3600), inRange := Instant.hour_inRange hour,
                       leap := nofun }

/-- A window from midnight to two o'clock in which a mail was opened at one o'clock: the verdict of that
instant is the one at three o'clock, also when the opening was reported twice after a click. -/
theorem Verdict.window_decides_opened :
    let watch : Watch := { opened := true }
    let opening : Observation := ⟨.opened, .onFirstDay 1⟩
    let click : Observation := ⟨.clicked, .onFirstDay 1⟩
    let ask := fun observed now =>
      evaluate watch .anyOf observed (.onFirstDay 0) (.onFirstDay 2) (.onFirstDay now)
    ask [opening] 1 = .yes ∧ ask [opening] 3 = .yes ∧ ask [click, opening, opening] 3 = .yes ∧
      ask [click] 3 = .no ∧
      evaluate watch .noneOf [opening] (.onFirstDay 0) (.onFirstDay 2) (.onFirstDay 1) = .no := by
  intro watch opening click ask
  obtain ⟨hstays, hdual, -, -, hsignal⟩ := window_decides watch .anyOf [opening] (.onFirstDay 0)
    (.onFirstDay 2) (.onFirstDay 1)
  obtain ⟨-, -, hmore, -, -⟩ := window_decides watch .anyOf [opening] (.onFirstDay 0)
    (.onFirstDay 2) (.onFirstDay 3)
  obtain ⟨-, -, -, hend, -⟩ := window_decides watch .anyOf [click] (.onFirstDay 0)
    (.onFirstDay 2) (.onFirstDay 3)
  have hone : ask [opening] 1 = .yes := hsignal opening List.mem_cons_self (by decide) (by decide)
  have hthree : ask [opening] 3 = .yes := by
    refine (hstays (.onFirstDay 3) (by decide) ?_).trans hone
    rw [show evaluate watch .anyOf [opening] _ _ _ = .yes from hone]
    nofun
  have hperm : [click, opening, opening].Perm ([opening] ++ [opening, click]) := by decide
  refine ⟨hone, hthree, ?_, ?_, ?_⟩
  · refine (hmore _ _ hperm ?_).trans hthree
    decide
  · refine (hend (by decide)).2 ?_
    decide
  · rw [hdual, show evaluate watch .anyOf [opening] _ _ _ = .yes from hone]
    rfl

end MailCampaign
