import MailCampaign.Proofs.Engine.Trail

/-!
# Running one step

Whatever a trigger finds at the step of a cursor, running the step takes a trail in which that cursor
alone takes turns, and leaves it further on, parked, at its end or as it was. A cursor that moved on
is at the end of an edge, and if it had only just come to its step, the step was a prompt one. At most
one mail goes out, and only at a mail.
-/

namespace MailCampaign

variable {σ : Type}

/-- Where a cursor gets to that leaves a step: over an edge, and over one from a prompt step if it
had only just come there. -/
def Graph.Onward (g : Graph) (a : String) (trigger : Trigger) (b : String) : Prop :=
  g.Joins a b ∧ (trigger.cause = .enter → g.AtOnce a b)

/-- A cursor that enters is left alone by what did not come of its entering. -/
def Cursor.LeftBy (c : Cursor) (trigger : Trigger) : Prop :=
  trigger.cause ≠ .enter ∧ c.state.entering = true

/-- The number of mails that a step may send. -/
def Node.mailCount (n : Node) : Nat :=
  match n.action with
  | .email _ => 1
  | _ => 0

theorem Node.mailCount_le (n : Node) : n.mailCount ≤ 1 := by
  unfold Node.mailCount
  split <;> decide

/-- The number of mails that the step of an id may send. -/
def Graph.mailCount (g : Graph) (id : String) : Nat := ((g.node? id).map Node.mailCount).getD 0

namespace Engine

/-- An operation takes a trail within a scope, leaves the cursor of a key as `Lands` says and sends at
most so many mails. -/
structure Steps (svc : Services σ) (scope : Scope) (key : CursorKey) (onward : String → Prop)
    (idle : Prop) (n : Nat) (e : Engine σ Outcome) (s : Session σ) : Prop where
  trail : s.Trail svc scope (e.on s).2
  lands : Lands key onward idle (e.on s).1 (e.on s).2.world
  mails : (e.on s).2.world.mails ≤ s.world.mails + n

variable {svc : Services σ} {scope : Scope} {key : CursorKey} {onward onward' : String → Prop}
  {idle idle' : Prop} {n k : Nat} {s t : Session σ} {g : Graph} {node : Node} {c : Cursor}
  {now : Instant}

namespace Steps

theorem of_eq {e : Engine σ Outcome} {r : Except Fault Outcome} (he : e.on s = (r, t))
    (ht : s.Trail svc scope t) (hl : Lands key onward idle r t.world)
    (hm : t.world.mails ≤ s.world.mails + n) : e.Steps svc scope key onward idle n s :=
  ⟨by rw [he]; exact ht, by rw [he]; exact hl, by rw [he]; exact hm⟩

theorem mono {e : Engine σ Outcome} (h : e.Steps svc scope key onward idle n s)
    (ho : ∀ id, onward id → onward' id) (hi : idle → idle') (hn : n ≤ k) :
    e.Steps svc scope key onward' idle' k s :=
  ⟨h.trail, h.lands.mono ho hi, Nat.le_trans h.mails (Nat.add_le_add_left hn _)⟩

theorem bind {α : Type} {d : Engine σ α} {f : α → Engine σ Outcome} {a : α}
    (hd : d.on s = (.ok a, t)) (ht : s.Trail svc scope t) (hm : t.world.mails ≤ s.world.mails + k)
    (h : (f a).Steps svc scope key onward idle n t) :
    (d >>= f).Steps svc scope key onward idle (k + n) s := by
  refine of_eq (on_bind_ok hd) (ht.trans h.trail) h.lands (Nat.le_trans h.mails ?_)
  omega

/-- An operation that only looks before it goes on. -/
theorem look {α : Type} {d : Engine σ α} {f : α → Engine σ Outcome} {a : α}
    (hd : d.on s = (.ok a, s)) (h : (f a).Steps svc scope key onward idle n s) :
    (d >>= f).Steps svc scope key onward idle n s :=
  of_eq (on_bind_ok hd) h.trail h.lands h.mails

/-- A move of the world alone sends no mail. -/
theorem lift {c : Change Outcome} (hs : ¬ scope.mails)
    (h : c.Steps svc.retry scope key onward idle s.world) :
    (liftM c : Engine σ Outcome).Steps svc scope key onward idle n s :=
  ⟨.of_course h.course, h.lands, Nat.le_trans (Nat.le_of_eq (h.course.mails_eq hs))
    (Nat.le_add_right _ _)⟩

/-- A trigger that means nothing to a cursor leaves it as it was. -/
theorem ignored (hc : s.world.cursors.find? key = some c) (hi : c.state.entering = true → idle) :
    (pure .ignored : Engine σ Outcome).Steps svc scope key onward idle n s := by
  refine .of_eq rfl .refl (.rests nofun fun d hd he => hi ?_) (Nat.le_add_right _ _)
  rw [hc] at hd
  rwa [Option.some.inj hd]

end Steps

/-! ## Mails -/

/-- Sending the mail of a step ends in what comes of the attempt. -/
theorem sendMail_steps {mail : Mail} (ho : scope.turns c.key) (hsc : ¬ scope.mails)
    (hc : s.world.cursors.find? c.key = some c) (hat : c.At s.world.flows g node)
    (ha : node.action = .email mail) (hs : c.Sendable now) (hr : c.state.terminal = false)
    (hst : s.world.status c.campaignId = .active) :
    (sendMail svc g c node mail now).Steps svc scope c.key (g.Joins node.id) False 1 s := by
  refine .look (on_world s) ?_
  cases s.world.leads.find? c.leadId with
  | none => exact .lift hsc (Change.fail_steps _ ho hc)
  | some lead =>
    have hmail : s.world.Mailing c.key := ⟨c, g, node, hc, hst, hr, hat, mail, ha⟩
    obtain ⟨result, t, hon, ht, hm⟩ := attempt_on svc .idle mail lead now hmail
    exact Steps.bind (n := 0) hon (ht.mono (Scope.idle_within scope)) hm
      (.lift hsc (Change.settleMail_steps ho hc id ht.course hat ha hs))

/-! ## Any step -/

/-- Running the step at which a running cursor of an active campaign is. -/
theorem perform_steps (trigger : Trigger) (ho : scope.turns c.key) (hsc : ¬ scope.mails)
    (hc : s.world.cursors.find? c.key = some c) (hat : c.At s.world.flows g node)
    (hr : c.state.terminal = false) (hst : s.world.status c.campaignId = .active) :
    (perform svc g c node trigger now).Steps svc scope c.key (g.Onward c.nodeId trigger)
      (c.LeftBy trigger) node.mailCount s := by
  have hprompt : node.Prompt → ∀ id, g.Joins node.id id → g.Onward c.nodeId trigger id := by
    intro hp id hj
    rw [← hat.nodeId] at hj
    exact ⟨hj, fun _ => ⟨node, hat.step, hp, hj⟩⟩
  have hlater : trigger.cause ≠ .enter → ∀ id, g.Joins node.id id →
      g.Onward c.nodeId trigger id := by
    intro hl id hj
    rw [← hat.nodeId] at hj
    exact ⟨hj, fun h => absurd h hl⟩
  have hskip : (c.state.entering = true → trigger.cause ≠ .enter) →
      (pure .ignored : Engine σ Outcome).Steps svc scope c.key (g.Onward c.nodeId trigger)
        (c.LeftBy trigger) node.mailCount s := fun h => .ignored hc fun he => ⟨h he, he⟩
  have hone : ∀ {mail}, node.action = .email mail → 1 ≤ node.mailCount := by
    intro mail ha
    have hcount : node.mailCount = 1 := by unfold Node.mailCount; rw [ha]
    exact Nat.le_of_eq hcount.symm
  unfold perform
  split
  · next mail ha =>
    split
    · next he =>
      exact (sendMail_steps ho hsc hc hat ha (.inl he) hr hst).mono
        (hprompt (.inl ⟨mail, ha⟩)) False.elim (hone ha)
    · next he => exact hskip fun h => absurd h he
  · next mail ha =>
    split
    · next hd =>
      exact (sendMail_steps ho hsc hc hat ha (.inr hd) hr hst).mono
        (hprompt (.inl ⟨mail, ha⟩)) False.elim (hone ha)
    · exact hskip fun _ => nofun
  · next wait ha =>
    split
    · next he =>
      exact .lift hsc ((Change.scheduleDelay_steps ho hc hat ha he).mono
        (fun _ h => h) False.elim)
    · next he => exact hskip fun h => absurd h he
  · next wait ha =>
    split
    · next hd =>
      exact .lift hsc ((Change.advance_steps ho hc hat (.elapsed ha hd.1 hd.2)).mono
        (hlater nofun) False.elim)
    · exact hskip fun _ => nofun
  · next k ha =>
    split
    · next he =>
      exact .lift hsc ((Change.enterCondition_steps ho hc hat ha he).mono
        (fun id h => hprompt (.inr ⟨k, ha, h.2⟩) id h.1) False.elim)
    · next he => exact hskip fun h => absurd h he
  · next k ha =>
    split
    · next hs =>
      exact .lift hsc ((Change.resolve_steps ho hc hat ha hs).mono (hlater nofun) False.elim)
    · exact hskip fun _ => nofun
  · next k e ha =>
    split
    · next hs =>
      exact .lift hsc ((Change.observe_steps ho hc hat ha hs).mono (hlater nofun) False.elim)
    · exact hskip fun _ => nofun
  · next goal ha =>
    split
    · next he =>
      exact .lift hsc ((Change.reachGoal_steps ho hc hat ha he).mono
        (fun _ h => h) False.elim)
    · next he => exact hskip fun h => absurd h he
  · next trigger _ _ hmail _ hdelay _ hcondition _ _ hgoal =>
    -- Every step does something when a cursor comes to it.
    refine hskip fun _ hcause => ?_
    have htrigger : trigger = .enter := by cases trigger <;> first | rfl | cases hcause
    cases ha : node.action with
    | email mail => exact hmail mail ha htrigger
    | condition k => exact hcondition k ha htrigger
    | delay wait => exact hdelay wait ha htrigger
    | goal goal => exact hgoal goal ha htrigger

theorem on_ignoreClash (e : Engine σ Outcome) (s : Session σ) :
    (ignoreClash e).on s = match e.on s with
      | (.ok o, t) => (.ok o, t)
      | (.error (.clash _), t) => (.ok .ignored, t)
      | (.error x, t) => (.error x, t) := by
  unfold ignoreClash
  rw [on_tryCatch]
  rcases e.on s with ⟨x | o, t⟩
  · cases x <;> rfl
  · rfl

/-- A clash counts as nothing having been done. -/
theorem ignoreClash_steps {e : Engine σ Outcome} (h : e.Steps svc scope key onward idle n s) :
    (ignoreClash e).Steps svc scope key onward idle n s := by
  obtain ⟨ht, hl, hm⟩ := h
  have hon := on_ignoreClash e s
  rcases hr : e.on s with ⟨r, t⟩
  rw [hr] at ht hl hm hon
  cases hl with
  | moved hc hs hn => exact .of_eq hon ht (.moved hc hs hn) hm
  | rests hne hrest => exact .of_eq hon ht (.rests hne hrest) hm
  | clash x hrest => exact .of_eq hon ht (.rests nofun hrest) hm
  | outOfRange => exact .of_eq hon ht (.outOfRange _) hm

theorem on_cursor_some (hc : s.world.cursors.find? key = some c) :
    (liftM (Change.cursor key) : Engine σ Cursor).on s = (.ok c, s) := by
  rw [on_lift, Change.on_cursor_some hc]

theorem on_cursor_none (hc : s.world.cursors.find? key = none) :
    (liftM (Change.cursor key) : Engine σ Cursor).on s = (.error (.missing (.cursor key)), s) := by
  rw [on_lift, Change.on_cursor_none hc]

theorem execute_steps (trigger : Trigger) (ho : scope.turns key) (hsc : ¬ scope.mails)
    (hc : s.world.cursors.find? key = some c) (hg : s.world.flows.find? key.flowId = some g)
    (hst : s.world.status c.campaignId = .active) :
    (execute svc g key trigger now).Steps svc scope key (g.Onward c.nodeId trigger)
      (c.LeftBy trigger) (g.mailCount c.nodeId) s := by
  obtain rfl := CursorStore.key_eq_of_find? hc
  refine .look (on_cursor_some hc) ?_
  cases hr : c.state.terminal with
  | true =>
    exact .ignored hc fun he => by rw [CursorState.entering_of_terminal hr] at he; cases he
  | false =>
    cases hn : g.node? c.nodeId with
    | none => exact .lift hsc ((Change.fail_steps _ ho hc).mono (fun _ h => h) False.elim)
    | some node =>
      have hcount : node.mailCount ≤ g.mailCount c.nodeId := by
        unfold Graph.mailCount
        rw [hn]
        exact Nat.le_refl _
      exact ignoreClash_steps ((perform_steps trigger ho hsc hc ⟨hg, hn⟩ hr hst).mono
        (fun _ h => h) id hcount)

theorem active_of_not_halts {status : CampaignStatus} (h : status.halts = false) :
    status = .active := by
  cases status <;> first | rfl | cases h

/-- **One step.** A cursor in a known version is left further on or at rest by one run of its step. -/
theorem dispatchOnce_steps (trigger : Trigger) (ho : scope.turns key) (hsc : ¬ scope.mails)
    (hc : s.world.cursors.find? key = some c) (hg : s.world.flows.find? key.flowId = some g) :
    (dispatchOnce svc key trigger now).Steps svc scope key (g.Onward c.nodeId trigger)
      (c.LeftBy trigger) (g.mailCount c.nodeId) s := by
  refine .look (on_cursor_some hc) (.look (on_world s) ?_)
  cases hr : c.state.terminal with
  | true =>
    exact .ignored hc fun he => by rw [CursorState.entering_of_terminal hr] at he; cases he
  | false =>
    rw [if_neg Bool.false_ne_true]
    cases hst : (s.world.status c.campaignId).halts with
    | true =>
      rw [if_pos rfl]
      obtain ⟨b, v, hon, hv, d, hd, ht⟩ := Change.cancel_stored svc.retry scope
        "campaign halted" now hc
      have hcancel : (discard (liftM (Change.cancel key "campaign halted" now)) :
          Engine σ PUnit).on s = (.ok ⟨⟩, { s with world := v }) := by
        rw [on_discard, on_lift, hon]; rfl
      exact .of_eq (on_bind_ok hcancel) (.of_course hv) (.rests nofun
        (.of_find? hd (CursorState.entering_of_terminal ht)))
        (Nat.le_trans (Nat.le_of_eq (hv.mails_eq hsc)) (Nat.le_add_right _ _))
    | false =>
      rw [if_neg Bool.false_ne_true]
      have hneed : (liftM (Change.need (.missing (.flowVersion key.flowId))
          (s.world.flows.find? key.flowId)) : Engine σ Graph).on s = (.ok g, s) := by
        rw [on_lift, hg, Change.on_need_some]
      exact .look hneed (execute_steps trigger ho hsc hc hg (active_of_not_halts hst))

/-- Running a step takes a trail in which its cursor alone takes turns, whether or not it and its
version are known. -/
theorem dispatchOnce_follows (key : CursorKey) (trigger : Trigger) (now : Instant) :
    (dispatchOnce svc key trigger now).Follows svc (.one key) := by
  intro s
  cases hc : s.world.cursors.find? key with
  | none =>
    unfold dispatchOnce
    rw [on_bind_error (on_cursor_none hc)]
  | some c =>
    cases hg : s.world.flows.find? key.flowId with
    | some g => exact (dispatchOnce_steps trigger rfl id hc hg).trail
    | none =>
      unfold dispatchOnce
      rw [on_bind_ok (on_cursor_some hc), on_bind_ok (on_world s)]
      split
      · exact .refl
      · split
        · have hcancel : (Change.cancel key "campaign halted" now).Follows svc.retry (.one key) :=
            Change.cancel_follows key _ now
          exact ((Follows.lift hcancel).discard.bind fun _ => .pure _) s
        · rw [hg]
          exact .refl

end Engine

end MailCampaign
