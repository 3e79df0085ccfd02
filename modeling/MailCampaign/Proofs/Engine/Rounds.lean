import MailCampaign.Proofs.Engine.Follow
import MailCampaign.Proofs.Flow.Loops

/-!
# A dispatch ends

A dispatch runs the step of a cursor again and again for as long as the cursor moves on. `Rounds` is
that loop without a limit; it ends by itself, before the limit of `dispatch` is reached.

1. After the first round the cursor has just come to its step, so it moves on from prompt steps only
   (`dispatchOnce_steps`).
2. Over such edges the rank of the step goes down, so as many rounds follow as the rank allows, and any
   limit above the rank is enough (`enterRounds`).
3. The steps of these rounds follow each other at once and differ, as no such edges make a cycle. The
   step of the first round differs from them too if it is a mail.
-/

namespace MailCampaign

variable {σ : Type}

/-- One round of a dispatch: the sessions before and after the step of the cursor was run. -/
structure Round (σ : Type) where
  start : Session σ
  finish : Session σ

/-- The step at which the cursor of a key is as a round starts. -/
def Round.step? (key : CursorKey) (u : Round σ) : Option String :=
  (u.start.world.cursors.find? key).map Cursor.nodeId

/-- That step, if it is a mail. -/
def Round.mail? (g : Graph) (key : CursorKey) (u : Round σ) : Option String :=
  (u.step? key).filter fun id => g.mailCount id != 0

namespace Engine

/-- The rounds of a dispatch without a limit, with its outcome and the session at its end. -/
inductive Rounds (svc : Services σ) (key : CursorKey) (now : Instant) :
    Trigger → Session σ → List (Round σ) → Except Fault Outcome → Session σ → Prop
  | last {trigger : Trigger} {s t : Session σ} {r : Except Fault Outcome} :
      (dispatchOnce svc key trigger now).on s = (r, t) → r ≠ .ok .moved →
      Rounds svc key now trigger s [⟨s, t⟩] r t
  | again {trigger : Trigger} {s t u : Session σ} {rounds : List (Round σ)}
      {r : Except Fault Outcome} :
      (dispatchOnce svc key trigger now).on s = (.ok .moved, t) →
      Rounds svc key now .enter t rounds r u →
      Rounds svc key now trigger s (⟨s, t⟩ :: rounds) r u

variable {svc : Services σ} {key : CursorKey} {now : Instant} {g : Graph} {c : Cursor}
  {s t : Session σ}

/-- The second of two rounds runs a step that follows the step of the first at once. -/
def Apart (g : Graph) (key : CursorKey) (u v : Round σ) : Prop :=
  ∃ a b, u.step? key = some a ∧ v.step? key = some b ∧ Relation.TransGen g.AtOnce a b

/-- What is known of rounds that start at a step. -/
structure From (g : Graph) (key : CursorKey) (a : String) (rounds : List (Round σ)) : Prop where
  reached : ∀ u ∈ rounds, ∃ b, u.step? key = some b ∧ Relation.ReflTransGen g.AtOnce a b
  apart : rounds.Pairwise (Apart g key)
  mails : ∀ u ∈ rounds,
    u.finish.world.mails ≤ u.start.world.mails + (u.mail? g key).toList.length

/-- A step sends at most one mail, and none if it is no mail. -/
theorem mailCount_le {u : Round σ} (hc : u.start.world.cursors.find? key = some c) :
    g.mailCount c.nodeId ≤ (u.mail? g key).toList.length := by
  have hle : g.mailCount c.nodeId ≤ 1 := by
    unfold Graph.mailCount
    cases g.node? c.nodeId with
    | none => exact Nat.zero_le _
    | some node => exact node.mailCount_le
  unfold Round.mail? Round.step?
  rw [hc, Option.map_some, Option.filter_some]
  split
  · exact hle
  · next h => simp at h; omega

/-- Rounds after one more that moves over an edge followed at once. -/
theorem From.cons {a b : String} {rounds : List (Round σ)} {u : Round σ} (h : From g key b rounds)
    (hu : u.step? key = some a) (hab : g.AtOnce a b)
    (hm : u.finish.world.mails ≤ u.start.world.mails + (u.mail? g key).toList.length) :
    From g key a (u :: rounds) where
  reached := by
    intro v hv
    rcases List.mem_cons.1 hv with rfl | hv
    · exact ⟨a, hu, .refl⟩
    · obtain ⟨d, hd, hbd⟩ := h.reached v hv
      exact ⟨d, hd, hbd.head hab⟩
  apart := by
    refine List.pairwise_cons.2 ⟨fun v hv => ?_, h.apart⟩
    obtain ⟨d, hd, hbd⟩ := h.reached v hv
    exact ⟨a, d, hu, hd, .head' hab hbd⟩
  mails := List.forall_mem_cons.2 ⟨hm, h.mails⟩

theorem From.single {a : String} {u : Round σ} (hu : u.step? key = some a)
    (hm : u.finish.world.mails ≤ u.start.world.mails + (u.mail? g key).toList.length) :
    From g key a [u] where
  reached := by
    intro v hv
    rw [List.mem_singleton.1 hv]
    exact ⟨a, hu, .refl⟩
  apart := List.pairwise_singleton _ _
  mails := List.forall_mem_singleton.2 hm

/-! ## The loop -/

theorem dispatchSteps_again {trigger : Trigger}
    (h : (dispatchOnce svc key trigger now).on s = (.ok .moved, t)) (n : Nat) :
    (dispatchSteps svc key now (n + 1) trigger).on s = (dispatchSteps svc key now n .enter).on t := by
  rw [dispatchSteps, on_bind_ok h]

theorem dispatchSteps_last {trigger : Trigger} {r : Except Fault Outcome}
    (h : (dispatchOnce svc key trigger now).on s = (r, t)) (hr : r ≠ .ok .moved) (n : Nat) :
    (dispatchSteps svc key now (n + 1) trigger).on s = (r, t) := by
  cases r with
  | error x => rw [dispatchSteps, on_bind_error h]
  | ok o =>
    rw [dispatchSteps, on_bind_ok h]
    cases o with
    | moved => exact absurd rfl hr
    | _ => rfl

/-- What one round comes to, for a cursor in a known version. -/
structure Turns (svc : Services σ) (g : Graph) (key : CursorKey) (now : Instant)
    (trigger : Trigger) (c : Cursor) (s t : Session σ) (r : Except Fault Outcome) : Prop where
  on : (dispatchOnce svc key trigger now).on s = (r, t)
  lands : Lands key (g.Onward c.nodeId trigger) (c.LeftBy trigger) r t.world
  version : t.world.flows.find? key.flowId = some g
  step : (⟨s, t⟩ : Round σ).step? key = some c.nodeId
  mails : t.world.mails ≤ s.world.mails + ((⟨s, t⟩ : Round σ).mail? g key).toList.length

theorem dispatchOnce_turns (svc : Services σ) (now : Instant) (trigger : Trigger)
    (hc : s.world.cursors.find? key = some c)
    (hg : s.world.flows.find? key.flowId = some g) :
    ∃ r t, Turns svc g key now trigger c s t r := by
  have hsteps : (dispatchOnce svc key trigger now).Steps svc (.one key) key
      (g.Onward c.nodeId trigger) (c.LeftBy trigger) (g.mailCount c.nodeId) s :=
    dispatchOnce_steps trigger rfl id hc hg
  refine ⟨_, _, rfl, hsteps.lands, hsteps.trail.course.grows _ _ hg, ?_, ?_⟩
  · unfold Round.step?
    rw [hc, Option.map_some]
  · exact Nat.le_trans hsteps.mails (Nat.add_le_add_left (mailCount_le hc) _)

/-- The rounds of a cursor that has just come to its step. Any limit above the rank of the step is
enough for them. -/
theorem enterRounds {n : Nat} (hc : s.world.cursors.find? key = some c)
    (hg : s.world.flows.find? key.flowId = some g) (hn : g.rank c.nodeId < n) :
    ∃ rounds r t, Rounds svc key now .enter s rounds r t ∧
      (dispatchSteps svc key now n .enter).on s = (r, t) ∧
      rounds.length ≤ g.rank c.nodeId + 1 ∧ From g key c.nodeId rounds ∧
      Lands key (fun _ => False) False r t.world := by
  induction n generalizing s c with
  | zero => exact absurd hn (Nat.not_lt_zero _)
  | succ n ih =>
    obtain ⟨r, t, hturn⟩ := dispatchOnce_turns svc now .enter hc hg
    by_cases hr : r = .ok .moved
    · subst hr
      obtain ⟨d, hd, -, hj, hat⟩ := hturn.lands.of_moved
      have hrank := g.rank_lt (hat rfl)
      obtain ⟨rounds, r, u, hrounds, hon, hlen, hfrom, hl⟩ := ih hd hturn.version (by omega)
      refine ⟨⟨s, t⟩ :: rounds, r, u, .again hturn.on hrounds, ?_, ?_,
        hfrom.cons hturn.step (hat rfl) hturn.mails, hl⟩
      · rw [dispatchSteps_again hturn.on, hon]
      · rw [List.length_cons]
        omega
    · refine ⟨[⟨s, t⟩], r, t, .last hturn.on hr, dispatchSteps_last hturn.on hr n, ?_,
        .single hturn.step hturn.mails, (hturn.lands.stopped hr).mono (fun _ h => h) ?_⟩
      · exact Nat.succ_le_succ (Nat.zero_le _)
      · exact fun h => h.1 rfl

/-- Mails at which rounds start that follow each other at once differ. -/
theorem nodup_mails {rounds : List (Round σ)} (h : rounds.Pairwise (Apart g key)) :
    (rounds.filterMap (Round.mail? g key)).Nodup := by
  refine List.pairwise_filterMap.2 (h.imp ?_)
  rintro u v ⟨a, b, ha, hb, hab⟩ x hx y hy rfl
  obtain ⟨hx, -⟩ := Option.filter_eq_some_iff.1 hx
  obtain ⟨hy, -⟩ := Option.filter_eq_some_iff.1 hy
  rw [Option.some.inj (ha.symm.trans hx), Option.some.inj (hb.symm.trans hy)] at hab
  exact g.atOnce_acyclic x hab

/-- An edge out of a mail is followed at once. -/
theorem atOnce_of_mail {a b : String} (hj : g.Joins a b) (hm : (g.mailCount a != 0) = true) :
    g.AtOnce a b := by
  unfold Graph.mailCount at hm
  cases hn : g.node? a with
  | none => rw [hn] at hm; cases hm
  | some node =>
    refine ⟨node, hn, .inl ?_, hj⟩
    rw [hn] at hm
    cases ha : node.action with
    | email mail => exact ⟨mail, ha⟩
    | _ => simp [Node.mailCount, ha] at hm

theorem dispatchOnce_none {trigger : Trigger} (hc : s.world.cursors.find? key = none) :
    (dispatchOnce svc key trigger now).on s = (.error (.missing (.cursor key)), s) := by
  unfold dispatchOnce
  rw [on_bind_error (on_cursor_none hc)]

/-- A dispatch of a cursor that is not there changes nothing. -/
theorem dispatch_none {trigger : Trigger} (hc : s.world.cursors.find? key = none) :
    (dispatch svc key trigger now).on s = (.error (.missing (.cursor key)), s) := by
  unfold dispatch stepLimit
  rw [on_bind_ok (on_world s)]
  split
  · exact dispatchSteps_last (dispatchOnce_none hc) nofun _
  · exact dispatchSteps_last (dispatchOnce_none hc) nofun 0

/-- A dispatch of a cursor in a known version is its rounds, which leave the cursor at rest. -/
theorem dispatch_rounds (trigger : Trigger) (hc : s.world.cursors.find? key = some c)
    (hg : s.world.flows.find? key.flowId = some g) :
    ∃ rounds r t, Rounds svc key now trigger s rounds r t ∧
      (dispatch svc key trigger now).on s = (r, t) ∧ rounds.length ≤ g.size + 1 ∧
      (rounds.filterMap (Round.mail? g key)).Nodup ∧
      (∀ u ∈ rounds, u.finish.world.mails ≤ u.start.world.mails + (u.mail? g key).toList.length) ∧
      Lands key (fun _ => False) (c.LeftBy trigger) r t.world := by
  have hon : (dispatch svc key trigger now).on s =
      (dispatchSteps svc key now (g.size + 1) trigger).on s := by
    unfold dispatch stepLimit
    rw [on_bind_ok (on_world s), hg]
  obtain ⟨r, t, hturn⟩ := dispatchOnce_turns svc now trigger hc hg
  by_cases hr : r = .ok .moved
  · subst hr
    obtain ⟨d, hd, -, hj, -⟩ := hturn.lands.of_moved
    have hrank := Graph.rank_lt_size hj.mem
    obtain ⟨rounds, r, u, hrounds, hon', hlen, hfrom, hl⟩ := enterRounds (n := g.size) hd
      hturn.version hrank
    refine ⟨⟨s, t⟩ :: rounds, r, u, .again hturn.on hrounds, ?_, ?_, ?_,
      List.forall_mem_cons.2 ⟨hturn.mails, hfrom.mails⟩, hl.mono (fun _ h => h) False.elim⟩
    · rw [hon, dispatchSteps_again hturn.on, hon']
    · rw [List.length_cons]
      omega
    · cases hm : (⟨s, t⟩ : Round σ).mail? g key with
      | none =>
        rw [List.filterMap_cons_none hm]
        exact nodup_mails hfrom.apart
      | some a =>
        -- The first round is at a mail, so the others follow it at once as well.
        obtain ⟨ha, hmail⟩ := Option.filter_eq_some_iff.1 hm
        have hstep := Option.some.inj (hturn.step.symm.trans ha)
        rw [← hstep] at hmail
        exact nodup_mails (hfrom.cons hturn.step (atOnce_of_mail hj hmail) hturn.mails).apart
  · refine ⟨[⟨s, t⟩], r, t, .last hturn.on hr, ?_, Nat.succ_le_succ (Nat.zero_le _), ?_,
      List.forall_mem_singleton.2 hturn.mails, hturn.lands.stopped hr⟩
    · rw [hon, dispatchSteps_last hturn.on hr]
    · exact nodup_mails (List.pairwise_singleton _ _)

/-- **A dispatch ends.** For a cursor of a legal flow the loop that runs its step for as long as it
moves on ends by itself, after at most one round more than the flow has steps, and `dispatch` is that
loop. No two rounds run the same mail, and a round sends at most one mail, and only at a mail. -/
theorem dispatch_ends (svc : Services σ) (key : CursorKey) (trigger : Trigger) (now : Instant)
    (s : Session σ) (g : Graph) (hg : s.world.flows.find? key.flowId = some g) :
    ∃ rounds r t, Rounds svc key now trigger s rounds r t ∧
      (dispatch svc key trigger now).on s = (r, t) ∧ rounds.length ≤ g.size + 1 ∧
      (rounds.filterMap (Round.mail? g key)).Nodup ∧
      ∀ u ∈ rounds,
        u.finish.world.mails ≤ u.start.world.mails + (u.mail? g key).toList.length := by
  cases hc : s.world.cursors.find? key with
  | some c =>
    obtain ⟨rounds, r, t, hrounds, hon, hlen, hn, hm, -⟩ := dispatch_rounds trigger hc hg
    exact ⟨rounds, r, t, hrounds, hon, hlen, hn, hm⟩
  | none =>
    refine ⟨[⟨s, s⟩], _, s, .last (dispatchOnce_none hc) nofun, dispatch_none hc,
      Nat.succ_le_succ (Nat.zero_le _), ?_, ?_⟩
    · exact nodup_mails (List.pairwise_singleton _ _)
    · exact List.forall_mem_singleton.2 (Nat.le_add_right _ _)

end Engine

/-- An engine that delivers nothing and tries a mail up to three times again. -/
def Services.plain : Services Nat :=
  ⟨logMailer, .ofTable .empty, ⟨3, .ofSeconds 60 (by decide), .ofSeconds 3600 (by decide)⟩⟩

def Lead.ada : Lead := ⟨"ada", "ada@example.org", .empty⟩

def Lead.ben : Lead := ⟨"ben", "ben@example.org", .empty⟩

/-- The second day after the epoch. -/
def Instant.secondDay : Instant :=
  { Instant.epoch with seconds := 172800, inRange := by decide, leap := by decide }

/-- A lead that has just entered a flow with a loop. -/
def Session.newcomer : Session Nat :=
  let w := ((Change.activate (.ofNat 7) .followUp .epoch).on (World.empty 0)).2
  ⟨((Engine.addLead (.ofNat 7) .ada .epoch).on w).2, 0⟩

namespace Engine

theorem dispatch_ends_newcomer :
    ∃ g, Session.newcomer.world.flows.find? (.ofNat 0) = some g ∧ ∃ rounds r t,
      Rounds .plain ⟨.ofNat 0, "ada"⟩ .epoch .enter .newcomer rounds r t ∧
      (dispatch .plain ⟨.ofNat 0, "ada"⟩ .enter .epoch).on .newcomer = (r, t) ∧
      rounds.length ≤ g.size + 1 ∧
      (rounds.filterMap (Round.mail? g ⟨.ofNat 0, "ada"⟩)).Nodup ∧
      ∀ u ∈ rounds, u.finish.world.mails ≤
        u.start.world.mails + (u.mail? g ⟨.ofNat 0, "ada"⟩).toList.length := by
  have hknown : (Session.newcomer.world.flows.find? (.ofNat 0)).isSome = true := by decide +kernel
  obtain ⟨g, hg⟩ := Option.isSome_iff_exists.1 hknown
  exact ⟨g, hg, dispatch_ends .plain ⟨.ofNat 0, "ada"⟩ .enter .epoch .newcomer g hg⟩

end Engine

end MailCampaign
