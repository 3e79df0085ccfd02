import MailCampaign.Proofs.Run.Restart
import MailCampaign.Proofs.World.Backing
import MailCampaign.Proofs.World.Balance
import Mathlib.Data.UInt

/-!
# Successions of engines

An engine may be replaced between two operations: a snapshot is taken of it and loaded into a fresh
one, which goes on in its place with a mailer of its own. A succession is a run with any number of such
restarts. The moments of all engines stay on record.

1. A restart brings back every slot of the world, so what is balanced stays balanced, and the lists of
   the new world are in order (`Session.Restarted.at?_eq`, `Session.Restarted.tidy`).
2. A step of a succession is a row of postings or a restart, so every world of a succession is balanced.
-/

namespace MailCampaign

variable {σ : Type} {svc : Services σ} {allowed : Fault → Prop} {may may' : Operation → Prop}
  {s t u : Session (σ × List Moment)}

/-! ## Restarts -/

/-- The session in which a fresh engine has loaded a snapshot, with the moment noted. -/
def Session.restart (s : Session (σ × List Moment)) (snap : Snapshot) (firstId : Nat) (mailer : σ) :
    Session (σ × List Moment) :=
  noted ⟨((World.empty firstId).restore snap).1, mailer, s.moments⟩

/-- A fresh engine takes the place of another one, from a snapshot that lists what that one has. -/
inductive Session.Restarted (s : Session (σ × List Moment)) : Session (σ × List Moment) → Prop
  | intro {snap : Snapshot} (firstId : Nat) (mailer : σ) : snap.Lists s.world →
      Restarted s (s.restart snap firstId mailer)

namespace Session.Restarted

/-- A restart brings back every slot. -/
theorem at?_eq (h : s.Restarted t) (hs : s.world.Tidy) (slot : Slot) :
    t.world.at? slot = s.world.at? slot := by
  obtain ⟨firstId, mailer, hsnap⟩ := h
  exact World.at?_restore hsnap hs firstId slot

theorem tidy (h : s.Restarted t) (hs : s.world.Tidy) : t.world.Tidy := by
  obtain ⟨firstId, mailer, hsnap⟩ := h
  have hcopies := World.copies_restore (fun d hd => hsnap.mem_flows.1 hd) firstId
  -- Nothing is left to be replayed on the snapshot.
  have hrebuilds : ((World.empty firstId).restore _).1.Rebuilds [] s.world :=
    World.rebuilds_nil (World.at?_restore hsnap hs firstId)
  have hrestores := hrebuilds.restores hcopies hs fun d hd => absurd hd List.not_mem_nil
  exact hrestores.tidy hs hcopies.listed hcopies.indexed

end Session.Restarted

/-! ## Successions -/

/-- A step of a succession: an operation that may be performed, or a restart. -/
inductive Session.Stage (svc : Services σ) (allowed : Fault → Prop) (may : Operation → Prop)
    (s : Session (σ × List Moment)) : Session (σ × List Moment) → Prop
  | perform {op : Operation} {t : Session (σ × List Moment)} : may op → op.Leads svc allowed s t →
      Stage svc allowed may s t
  | restart {t : Session (σ × List Moment)} : s.Restarted t → Stage svc allowed may s t

/-- A succession goes on from one session to another. -/
abbrev Session.Proceeds (svc : Services σ) (allowed : Fault → Prop) (may : Operation → Prop) :
    Session (σ × List Moment) → Session (σ × List Moment) → Prop :=
  Relation.ReflTransGen (Stage svc allowed may)

/-- The sessions that successions come to in which operations end in no faults but the allowed ones. -/
def Succession (svc : Services σ) (allowed : Fault → Prop) (s : Session (σ × List Moment)) : Prop :=
  ∃ firstId mailer, (Session.start firstId mailer).Proceeds svc allowed (fun _ => True) s

theorem Session.Stage.mono (h : s.Stage svc allowed may t) (hmay : ∀ op, may op → may' op) :
    s.Stage svc allowed may' t := by
  cases h with
  | perform hop hleads => exact .perform (hmay _ hop) hleads
  | restart h => exact .restart h

theorem Session.Proceeds.mono (h : s.Proceeds svc allowed may t) (hmay : ∀ op, may op → may' op) :
    s.Proceeds svc allowed may' t :=
  Relation.ReflTransGen.mono (fun _ _ h => Session.Stage.mono h hmay) _ _ h

theorem Succession.proceed (h : Succession svc allowed s) (ht : s.Proceeds svc allowed may t) :
    Succession svc allowed t := by
  obtain ⟨firstId, mailer, hs⟩ := h
  exact ⟨firstId, mailer, hs.trans (ht.mono fun _ _ => trivial)⟩

theorem Succession.perform (h : Succession svc allowed s) {op : Operation}
    (hop : op.Leads svc allowed s t) : Succession svc allowed t := by
  obtain ⟨firstId, mailer, hs⟩ := h
  exact ⟨firstId, mailer, hs.tail (.perform trivial hop)⟩

theorem Succession.restart (h : Succession svc allowed s) (ht : s.Restarted t) :
    Succession svc allowed t := by
  obtain ⟨firstId, mailer, hs⟩ := h
  exact ⟨firstId, mailer, hs.tail (.restart ht)⟩

/-- A run is a succession without restarts. -/
theorem Run.succession (h : Run svc allowed s) : Succession svc allowed s := by
  induction h with
  | start firstId mailer => exact ⟨firstId, mailer, .refl⟩
  | step op _ hfresh hfaults ih =>
    exact ih.perform ⟨hfresh, hfaults, rfl⟩

/-- What holds at the start of every run and is preserved by operations and restarts holds all along
a succession. -/
theorem Succession.always {P : World → Prop} (h : Succession svc allowed s)
    (hempty : ∀ n, P (World.empty n))
    (hpost : ∀ w v : World, w.Postings True v → P w → P v)
    (hrestart : ∀ s t : Session (σ × List Moment), s.Restarted t → P s.world → P t.world) :
    P s.world := by
  obtain ⟨firstId, mailer, h⟩ := h
  induction h with
  | refl => exact hempty firstId
  | tail _ hstep ih =>
    cases hstep with
    | perform _ hleads => exact hpost _ _ (hleads.postings.mono fun _ => trivial) ih
    | restart h => exact hrestart _ _ h ih

theorem Succession.tidy (h : Succession svc allowed s) : s.world.Tidy :=
  h.always World.tidy_empty (fun _ _ hpost => hpost.tidy) fun _ _ => Session.Restarted.tidy

theorem Succession.balanced (h : Succession svc allowed s) : s.world.Balanced := by
  refine (h.always (P := fun w => w.Tidy ∧ w.Balanced)
    (fun n => ⟨World.tidy_empty n, World.balanced_empty n⟩) ?_ ?_).2
  · exact fun w v hpost hw => ⟨hpost.tidy hw.1, hpost.balanced hw.2⟩
  · exact fun s t ht hs => ⟨ht.tidy hs.1, hs.2.of_slots fun slot _ => ht.at?_eq hs.1 slot⟩

/-! ## Summaries -/

namespace CursorStore

variable (store : CursorStore) (campaign : Uuid)

/-- Each cursor of a campaign is in one state. -/
theorem sum_countIn : (CursorState.all.map (store.countIn campaign)).sum =
    store.all.countP fun c => c.campaignId == campaign := by
  unfold countIn
  generalize store.all = l
  induction l with
  | nil => rfl
  | cons c rest ih =>
    simp only [CursorState.all, List.map_cons, List.map_nil, List.sum_cons, List.sum_nil,
      List.countP_cons] at ih ⊢
    cases hc : c.campaignId == campaign with
    | false => simpa using ih
    | true => cases c.state <;> simp <;> omega

/-- The value of a state in the summary, if it occurs. -/
def stateCount? (state : CursorState) : Option (String × UInt64) :=
  match store.countIn campaign state with
  | 0 => none
  | n => some (state.name, UInt64.ofNat n)

theorem sum_stateCount? (states : List CursorState) :
    ((states.filterMap (store.stateCount? campaign)).map Prod.snd).sum =
      UInt64.ofNat (states.map (store.countIn campaign)).sum := by
  induction states with
  | nil => rfl
  | cons state rest ih =>
    rw [List.map_cons, List.sum_cons, UInt64.ofNat_add, ← ih, List.filterMap_cons, stateCount?]
    cases store.countIn campaign state with
    | zero => simp
    | succ n => rfl

/-- The counts of the states that occur in a campaign add up to the number of its cursors. -/
theorem sum_stateCounts : (store.stateCounts campaign).values.sum =
    UInt64.ofNat (store.all.countP fun c => c.campaignId == campaign) := by
  have hnodup : ((CursorState.all.filterMap (store.stateCount? campaign)).map Prod.fst).Nodup := by
    rw [List.map_filterMap]
    refine List.Nodup.filterMap (fun state state' name h h' => ?_) (by decide)
    have hname : ∀ state, name ∈ (store.stateCount? campaign state).map Prod.fst →
        state.name = name := by
      intro state h
      unfold stateCount? at h
      split at h
      · cases h
      · exact Option.some.inj h
    have hsame := (hname state h).trans (hname state' h').symm
    cases state <;> cases state' <;> first | rfl | exact absurd hsame (by decide)
  let t : Table String UInt64 := ⟨CursorState.all.filterMap (store.stateCount? campaign), hnodup⟩
  have hperm : (store.stateCounts campaign).values.Perm t.values :=
    Table.values_perm (Table.find?_insertAll_perm (t := t) (List.Perm.refl _))
  rw [List.sum, hperm.foldr_op_eq, ← sum_countIn, ← sum_stateCount?]
  rfl

end CursorStore

/-- A summary is given of every campaign that is known. -/
theorem Change.on_summary {w : World} {campaign : Uuid} (h : w.campaigns.contains campaign = true) :
    ∃ r, (summary campaign).on w = (.ok r, w) ∧ r.totals = w.statistics.of campaign ∧
      r.cursorStates = w.cursors.stateCounts campaign := by
  have hreq := on_requireCampaign campaign w
  rw [if_pos h] at hreq
  unfold summary
  rw [on_bind_ok hreq, on_bind_ok (on_get w)]
  exact ⟨_, rfl, rfl, rfl⟩

/-- **Every outcome is counted once.** Between the operations of a succession the totals of every
campaign count its cursors: those that were enrolled, and those that reached a goal, were completed,
failed or were canceled. In the summary of a campaign the counts of the states add up to the number of
enrollments. -/
theorem Succession.conserves (h : Succession svc allowed s) (campaign : Uuid) :
    (s.world.statistics.of campaign).outcomes = s.world.cursors.tally campaign ∧
      (s.world.campaigns.contains campaign = true →
        ∃ r, (Change.summary campaign).on s.world = (.ok r, s.world) ∧
          r.totals = s.world.statistics.of campaign ∧
          r.cursorStates.values.sum = r.totals.enrolled) := by
  refine ⟨h.balanced campaign, fun hknown => ?_⟩
  obtain ⟨r, hon, htotals, hstates⟩ := Change.on_summary hknown
  refine ⟨r, hon, htotals, ?_⟩
  have henrolled := congrArg Totals.enrolled (h.balanced campaign)
  rw [hstates, htotals, CursorStore.sum_stateCounts]
  exact henrolled.symm

/-- The short run, after a restart from its snapshot and a pause of the campaign. -/
def Session.relieved : Session (Nat × List Moment) :=
  (Operation.pause (.ofNat 7) .epoch).next .plain
    (Session.enrolled.restart (Session.enrolled.world.snapshot .epoch).sorted 5 9)

theorem succession_relieved (allowed : Fault → Prop) : Succession .plain allowed .relieved := by
  have hrestart : Session.enrolled.Restarted
      (Session.enrolled.restart (Session.enrolled.world.snapshot .epoch).sorted 5 9) :=
    .intro 5 9 (Session.enrolled.world.lists_snapshot .epoch).sorted
  have hpause : Operation.Leads .plain allowed (.pause (.ofNat 7) .epoch)
      (Session.enrolled.restart (Session.enrolled.world.snapshot .epoch).sorted 5 9) .relieved := by
    refine ⟨trivial, fun x hx => ?_, rfl⟩
    have hok : (((Operation.pause (.ofNat 7) .epoch).perform Services.plain.recording).on
        (Session.enrolled.restart (Session.enrolled.world.snapshot .epoch).sorted 5 9)).1 =
          .ok ⟨⟩ := by decide +kernel
    rw [hok] at hx
    cases hx
  exact ((run_enrolled allowed).succession.restart hrestart).perform hpause

theorem Succession.conserves_relieved :
    Succession .plain (fun _ => False) .relieved ∧
    (Session.relieved.world.statistics.of (.ofNat 7)).canceled = 1 ∧
    (Session.relieved.world.statistics.of (.ofNat 7)).outcomes =
      Session.relieved.world.cursors.tally (.ofNat 7) ∧
    (Session.relieved.world.campaigns.contains (.ofNat 7) = true →
      ∃ r, (Change.summary (.ofNat 7)).on Session.relieved.world =
          (.ok r, Session.relieved.world) ∧
        r.totals = Session.relieved.world.statistics.of (.ofNat 7) ∧
        r.cursorStates.values.sum = r.totals.enrolled) :=
  ⟨succession_relieved _, by decide +kernel,
    Succession.conserves (succession_relieved fun _ => False) (.ofNat 7)⟩

end MailCampaign
