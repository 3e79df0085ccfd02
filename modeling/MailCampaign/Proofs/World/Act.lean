import MailCampaign.Proofs.World.MailCounted

/-!
# Acts on a world

What a dispatch does to the world is a list of acts of five kinds. Two worlds are alike when they
agree on all that is looked up in them and on the mails that went to each lead, so that they differ
at most in the order in which things went out to different leads.

1. Each act does the same to alike worlds (`Alike.on`).
2. Acts that are apart lead to alike worlds in either order (`on_comm`): they are about different
   cursors, keys and leads, and counting does not depend on the order.
3. So lists of acts that are pairwise apart lead to alike worlds in any order (`after_perm`).
-/

namespace MailCampaign

/-- Something that a dispatch does to the world. -/
inductive Act where
  /-- A cursor takes a new form. -/
  | stored (old new : Cursor)
  /-- The end of a cursor is counted. -/
  | ended (campaign : Uuid) (state : CursorState)
  /-- A milestone is told of. -/
  | told (activity : Activity)
  /-- A mail that was accepted is counted, unless it was before. -/
  | mailed (c : Cursor) (messageId : String) (now : Instant)
  /-- A mail goes out. -/
  | sent (mail : Submission)

namespace Act

/-- The world after an act. -/
def on (w : World) : Act → World
  | stored old new => w.storeCursor old new
  | ended campaign state => w.countOutcome campaign state
  | told activity => w.emit (.activity activity)
  | mailed c messageId now => (w.countTotals (Change.sentEvent c messageId now) now).getD w
  | sent mail => w.emit (.submission mail)

/-- The cursor that an act stores under a key. -/
def cursor? (key : CursorKey) : Act → Option Cursor
  | stored _ new => if key = new.key then some new else none
  | _ => none

/-- When the event of a key was received that an act counts. -/
def applied? (key : String) : Act → Option Instant
  | mailed _ messageId now => if key = sentKey messageId then some now else none
  | _ => none

/-- The mails of an act to a lead. -/
def mailsTo (leadId : String) : Act → List Submission
  | sent mail => if mail.lead.id = leadId then [mail] else []
  | _ => []

/-- What an act counts in a world that was not counted there before. -/
def fresh? (w : World) : Act → Option FirstOfKind
  | mailed c messageId _ =>
    if w.statistics.applied.find? (sentKey messageId) = none then
      some ⟨c.campaignId, c.leadId, .sent⟩
    else none
  | _ => none

/-- The totals of a campaign after an act, which counts a mail if it is fresh. -/
def tally (fresh : Bool) (campaign : Uuid) (t : Totals) : Act → Totals
  | ended campaign' state => if campaign = campaign' then t.finish state else t
  | mailed c _ _ => if campaign = c.campaignId ∧ fresh then { t with sent := t.sent + 1 } else t
  | _ => t

/-- Acts that are about different cursors, keys and leads. -/
structure Apart (a b : Act) : Prop where
  cursors : ∀ key, a.cursor? key = none ∨ b.cursor? key = none
  applied : ∀ key, a.applied? key = none ∨ b.applied? key = none
  mails : ∀ leadId, a.mailsTo leadId = [] ∨ b.mailsTo leadId = []

theorem Apart.symm {a b : Act} (h : a.Apart b) : b.Apart a :=
  ⟨fun k => (h.cursors k).symm, fun k => (h.applied k).symm, fun l => (h.mails l).symm⟩

end Act

namespace World

/-- The mails that went to a lead, the latest first. -/
def mailsTo (w : World) (leadId : String) : List Submission :=
  w.submissions.filter fun mail => mail.lead.id = leadId

/-- Worlds that agree on all that is looked up in them, and on the mails to each lead. -/
structure Alike (w v : World) : Prop where
  flows : v.flows = w.flows
  campaigns : v.campaigns = w.campaigns
  leads : v.leads = w.leads
  seen : v.seen = w.seen
  cursors : ∀ key, v.cursors.find? key = w.cursors.find? key
  totals : ∀ campaign, v.statistics.of campaign = w.statistics.of campaign
  firsts : ∀ f, f ∈ v.statistics.firsts ↔ f ∈ w.statistics.firsts
  applied : ∀ key, v.statistics.applied.find? key = w.statistics.applied.find? key
  mails : ∀ leadId, v.mailsTo leadId = w.mailsTo leadId

variable {w v u : World}

theorem Alike.refl (w : World) : w.Alike w :=
  ⟨rfl, rfl, rfl, rfl, fun _ => rfl, fun _ => rfl, fun _ => Iff.rfl, fun _ => rfl, fun _ => rfl⟩

theorem Alike.trans (h : w.Alike v) (h' : v.Alike u) : w.Alike u where
  flows := h'.flows.trans h.flows
  campaigns := h'.campaigns.trans h.campaigns
  leads := h'.leads.trans h.leads
  seen := h'.seen.trans h.seen
  cursors := fun key => (h'.cursors key).trans (h.cursors key)
  totals := fun campaign => (h'.totals campaign).trans (h.totals campaign)
  firsts := fun f => (h'.firsts f).trans (h.firsts f)
  applied := fun key => (h'.applied key).trans (h.applied key)
  mails := fun leadId => (h'.mails leadId).trans (h.mails leadId)

end World

/-! ## What is seen of an act -/

namespace Act

variable (a b : Act) (w : World)

/-- A mail that was counted before is not counted again. -/
theorem countTotals_again {c : Cursor} {messageId : String} {now t : Instant}
    (h : w.statistics.applied.find? (sentKey messageId) = some t) :
    w.countTotals (Change.sentEvent c messageId now) now = none :=
  Option.map_eq_none_iff.2 (Statistics.count_eq_none_iff.2 ⟨t, h⟩)

theorem on_mailed_again {c : Cursor} {messageId : String} {now t : Instant}
    (h : w.statistics.applied.find? (sentKey messageId) = some t) :
    (mailed c messageId now).on w = w := by
  show (w.countTotals _ _).getD w = w
  rw [countTotals_again w h]
  rfl

/-- A mail that was not counted before is counted in the statistics, and nothing else changes. -/
theorem on_mailed_first (c : Cursor) {messageId : String} (now : Instant)
    (h : w.statistics.applied.find? (sentKey messageId) = none) :
    ∃ totals unique, (mailed c messageId now).on w = World.journalTotals
      { w with statistics := {
          totals := w.statistics.totals.insert c.campaignId totals
          applied := w.statistics.applied.insert (sentKey messageId) now
          firsts := Statistics.remember w.statistics.firsts ⟨c.campaignId, c.leadId, .sent⟩ } }
      c.campaignId (some (sentKey messageId, now)) unique ∧
      totals = { w.statistics.of c.campaignId with
        sent := (w.statistics.of c.campaignId).sent + 1 } := by
  refine ⟨_, if w.statistics.isFirst (Change.sentEvent c messageId now) then
    some (c.leadId, .sent) else none, ?_, rfl⟩
  show (w.countTotals _ _).getD w = _
  unfold World.countTotals Statistics.count
  rw [show w.statistics.applied.find? (Change.sentEvent c messageId now).key = none from h]
  rfl

/-- The end of a cursor is counted in the statistics, and nothing else changes but what goes out. -/
theorem on_ended (campaign : Uuid) (state : CursorState) :
    ∃ trace, (ended campaign state).on w =
        { w with statistics := w.statistics.countOutcome campaign state, trace } ∧
      trace.filterMap Effect.submission? = w.submissions := by
  show ∃ trace, w.countOutcome campaign state = _ ∧ _
  unfold World.countOutcome
  split
  · exact ⟨_, rfl, rfl⟩
  · exact ⟨_, rfl, rfl⟩

/-- What an act leaves alone, and what it adds to what was there. -/
structure Seen (a : Act) (w v : World) : Prop where
  flows : v.flows = w.flows
  campaigns : v.campaigns = w.campaigns
  leads : v.leads = w.leads
  seen : v.seen = w.seen
  cursors : ∀ key, v.cursors.find? key = (a.cursor? key).or (w.cursors.find? key)
  applied : ∀ key, v.statistics.applied.find? key =
    (w.statistics.applied.find? key).or (a.applied? key)
  firsts : ∀ f, f ∈ v.statistics.firsts ↔ f ∈ w.statistics.firsts ∨ a.fresh? w = some f
  totals : ∀ campaign, v.statistics.of campaign =
    a.tally (a.fresh? w).isSome campaign (w.statistics.of campaign)
  mails : ∀ leadId, v.mailsTo leadId = a.mailsTo leadId ++ w.mailsTo leadId

theorem seen_stored (old new : Cursor) : (stored old new).Seen w ((stored old new).on w) where
  flows := rfl
  campaigns := rfl
  leads := rfl
  seen := rfl
  cursors := fun key => by
    refine (World.find?_storeCursor w old new key).trans ?_
    simp only [cursor?]
    split <;> rfl
  applied := fun _ => Option.or_none.symm
  firsts := fun f => (or_iff_left (Option.some_ne_none f).symm).symm
  totals := fun _ => rfl
  mails := fun _ => rfl

theorem seen_ended (campaign : Uuid) (state : CursorState) :
    (ended campaign state).Seen w ((ended campaign state).on w) := by
  obtain ⟨trace, hon, htrace⟩ := on_ended w campaign state
  rw [hon]
  refine ⟨rfl, rfl, rfl, rfl, fun _ => rfl, fun _ => Option.or_none.symm,
    fun f => (or_iff_left (Option.some_ne_none f).symm).symm, fun campaign' => ?_, fun _ => congrArg (List.filter _) htrace⟩
  show ((w.statistics.totals.insert campaign _).find? campaign').getD {} = _
  rw [Table.find?_insert]
  simp only [tally]
  by_cases hc : campaign' = campaign
  · rw [if_pos hc, if_pos hc, hc]
    rfl
  · rw [if_neg hc, if_neg hc]
    rfl

theorem seen_told (activity : Activity) : (told activity).Seen w ((told activity).on w) :=
  ⟨rfl, rfl, rfl, rfl, fun _ => rfl, fun _ => Option.or_none.symm,
    fun f => (or_iff_left (Option.some_ne_none f).symm).symm, fun _ => rfl, fun _ => rfl⟩

theorem seen_sent (mail : Submission) : (sent mail).Seen w ((sent mail).on w) := by
  refine ⟨rfl, rfl, rfl, rfl, fun _ => rfl, fun _ => Option.or_none.symm,
    fun f => (or_iff_left (Option.some_ne_none f).symm).symm, fun _ => rfl, fun leadId => ?_⟩
  show (mail :: w.submissions).filter _ = _
  simp only [mailsTo]
  by_cases h : mail.lead.id = leadId
  · rw [List.filter_cons_of_pos (by simpa using h), if_pos h]
    rfl
  · rw [List.filter_cons_of_neg (by simpa using h), if_neg h]
    rfl

theorem seen_mailed_again {c : Cursor} {messageId : String} {now t : Instant}
    (h : w.statistics.applied.find? (sentKey messageId) = some t) :
    (mailed c messageId now).Seen w ((mailed c messageId now).on w) := by
  have hfresh : fresh? w (mailed c messageId now) = none :=
    if_neg fun hnone => Option.some_ne_none t (h.symm.trans hnone)
  rw [on_mailed_again w h]
  refine ⟨rfl, rfl, rfl, rfl, fun _ => rfl, fun key => ?_, fun f => ?_, fun campaign => ?_,
    fun _ => rfl⟩
  · simp only [applied?]
    split
    · next hk => rw [hk, h]; rfl
    · rw [Option.or_none]
  · rw [hfresh]
    exact (or_iff_left (Option.some_ne_none f).symm).symm
  · rw [hfresh]
    exact (if_neg fun h => Bool.false_ne_true h.2).symm

theorem seen_mailed_first (c : Cursor) {messageId : String} (now : Instant)
    (h : w.statistics.applied.find? (sentKey messageId) = none) :
    (mailed c messageId now).Seen w ((mailed c messageId now).on w) := by
  have hfresh : fresh? w (mailed c messageId now) = some ⟨c.campaignId, c.leadId, .sent⟩ := if_pos h
  obtain ⟨totals, unique, hon, htotals⟩ := on_mailed_first w c now h
  rw [hon]
  refine ⟨rfl, rfl, rfl, rfl, fun _ => rfl, fun key => ?_, fun f => ?_, fun campaign => ?_,
    fun _ => rfl⟩
  · refine (Table.find?_insert _ (sentKey messageId) key now).trans ?_
    simp only [applied?]
    split
    · next hk => rw [hk, h]; rfl
    · rw [Option.or_none]
  · rw [hfresh, Option.some_inj]
    exact Statistics.mem_remember.trans (or_congr Iff.rfl eq_comm)
  · rw [hfresh]
    show ((w.statistics.totals.insert c.campaignId totals).find? campaign).getD {} = _
    rw [Table.find?_insert]
    simp only [tally]
    by_cases hc : campaign = c.campaignId
    · rw [if_pos hc, if_pos ⟨hc, rfl⟩, hc]
      exact htotals
    · rw [if_neg hc, if_neg fun h => hc h.1]
      rfl

theorem seen_on : a.Seen w (a.on w) := by
  cases a with
  | stored old new => exact seen_stored w old new
  | ended campaign state => exact seen_ended w campaign state
  | told activity => exact seen_told w activity
  | sent mail => exact seen_sent w mail
  | mailed c messageId now =>
    cases h : w.statistics.applied.find? (sentKey messageId) with
    | some t => exact seen_mailed_again w h
    | none => exact seen_mailed_first w c now h

/-! ## Acts in either order -/

/-- What counts as fresh depends on the counted keys alone. -/
theorem fresh?_congr {v : World}
    (h : ∀ key, v.statistics.applied.find? key = w.statistics.applied.find? key) :
    a.fresh? v = a.fresh? w := by
  cases a with
  | mailed c messageId now =>
    simp only [fresh?]
    rw [h]
  | _ => rfl

/-- An act does not change what counts as fresh for an act that is apart from it. -/
theorem fresh?_on {a b : Act} (h : a.Apart b) (w : World) : b.fresh? (a.on w) = b.fresh? w := by
  cases b with
  | mailed c messageId now =>
    have hnone : a.applied? (sentKey messageId) = none := by
      refine (h.applied (sentKey messageId)).resolve_right fun hb => ?_
      simp [applied?] at hb
    simp only [fresh?]
    rw [(a.seen_on w).applied, hnone, Option.or_none]
  | _ => rfl

theorem finish_comm (t : Totals) (state state' : CursorState) :
    (t.finish state).finish state' = (t.finish state').finish state := by
  cases state <;> cases state' <;> rfl

/-- Counting does not depend on the order. -/
theorem tally_comm (fresh fresh' : Bool) (campaign : Uuid) (t : Totals) :
    b.tally fresh' campaign (a.tally fresh campaign t) =
      a.tally fresh campaign (b.tally fresh' campaign t) := by
  cases a with
  | ended campaign₁ state =>
    cases b with
    | ended campaign₂ state' =>
      simp only [tally]
      split
      · split
        · exact finish_comm t state state'
        · rfl
      · rfl
    | mailed c id now =>
      simp only [tally]
      split
      · split
        · cases state <;> rfl
        · rfl
      · rfl
    | _ => rfl
  | mailed c id now =>
    cases b with
    | ended campaign₂ state' =>
      simp only [tally]
      split
      · split
        · cases state' <;> rfl
        · rfl
      · rfl
    | mailed c' id' now' =>
      simp only [tally]
      split
      · split <;> rfl
      · rfl
    | _ => rfl
  | _ => rfl

/-- Acts that are apart lead to alike worlds in either order. -/
theorem on_comm {a b : Act} (h : a.Apart b) (w : World) :
    (b.on (a.on w)).Alike (a.on (b.on w)) := by
  have ha := a.seen_on w
  have hb := b.seen_on w
  have hab := b.seen_on (a.on w)
  have hba := a.seen_on (b.on w)
  refine ⟨by rw [hba.flows, hb.flows, hab.flows, ha.flows],
    by rw [hba.campaigns, hb.campaigns, hab.campaigns, ha.campaigns],
    by rw [hba.leads, hb.leads, hab.leads, ha.leads], by rw [hba.seen, hb.seen, hab.seen, ha.seen],
    fun key => ?_, fun campaign => ?_, fun f => ?_, fun key => ?_, fun leadId => ?_⟩
  · rw [hba.cursors, hb.cursors, hab.cursors, ha.cursors]
    rcases h.cursors key with hn | hn <;> rw [hn, Option.none_or, Option.none_or]
  · rw [hba.totals, hb.totals, hab.totals, ha.totals, fresh?_on h, fresh?_on h.symm, tally_comm]
  · rw [hba.firsts, hb.firsts, hab.firsts, ha.firsts, fresh?_on h, fresh?_on h.symm, or_right_comm]
  · rw [hba.applied, hb.applied, hab.applied, ha.applied]
    rcases h.applied key with hn | hn <;> rw [hn, Option.or_none, Option.or_none]
  · rw [hba.mails, hb.mails, hab.mails, ha.mails]
    rcases h.mails leadId with hn | hn <;> rw [hn, List.nil_append, List.nil_append]

end Act

/-! ## Lists of acts -/

namespace World

variable {w v : World} {acts acts' : List Act}

/-- An act does the same to alike worlds. -/
theorem Alike.on (h : w.Alike v) (a : Act) : (a.on w).Alike (a.on v) := by
  have hw := a.seen_on w
  have hv := a.seen_on v
  have hfresh := a.fresh?_congr w h.applied
  refine ⟨by rw [hv.flows, hw.flows, h.flows], by rw [hv.campaigns, hw.campaigns, h.campaigns],
    by rw [hv.leads, hw.leads, h.leads], by rw [hv.seen, hw.seen, h.seen], fun key => ?_,
    fun campaign => ?_, fun f => ?_, fun key => ?_, fun leadId => ?_⟩
  · rw [hv.cursors, hw.cursors, h.cursors]
  · rw [hv.totals, hw.totals, hfresh, h.totals]
  · rw [hv.firsts, hw.firsts, hfresh, h.firsts]
  · rw [hv.applied, hw.applied, h.applied]
  · rw [hv.mails, hw.mails, h.mails]

/-- The world after some acts. -/
def after (w : World) (acts : List Act) : World := acts.foldl Act.on w

theorem after_append (w : World) (acts acts' : List Act) :
    w.after (acts ++ acts') = (w.after acts).after acts' := List.foldl_append

theorem Alike.after (h : w.Alike v) (acts : List Act) : (w.after acts).Alike (v.after acts) := by
  induction acts generalizing w v with
  | nil => exact h
  | cons a rest ih => exact ih (h.on a)

/-- An act may as well come after acts that it is apart from. -/
theorem after_cons_comm {a : Act} (h : ∀ b ∈ acts, a.Apart b) (w : World) :
    (w.after (a :: acts)).Alike (w.after (acts ++ [a])) := by
  induction acts generalizing w with
  | nil => exact .refl _
  | cons b rest ih =>
    have hswap : (w.after (a :: b :: rest)).Alike ((b.on w).after (a :: rest)) :=
      (Act.on_comm (h b List.mem_cons_self) w).after rest
    exact hswap.trans (ih (fun c hc => h c (List.mem_cons_of_mem b hc)) (b.on w))

/-- So may some acts. -/
theorem after_append_comm (h : ∀ a ∈ acts, ∀ b ∈ acts', a.Apart b) (w : World) :
    (w.after (acts ++ acts')).Alike (w.after (acts' ++ acts)) := by
  induction acts generalizing w with
  | nil =>
    rw [List.append_nil]
    exact .refl _
  | cons a rest ih =>
    have hrest := ih (fun b hb => h b (List.mem_cons_of_mem a hb)) (a.on w)
    have hfront := (after_cons_comm (h a List.mem_cons_self) w).after rest
    rw [← after_append, ← after_append, List.append_assoc] at hfront
    exact hrest.trans hfront

/-- **The order of acts.** Lists of acts that are pairwise apart lead to alike worlds in any order.
-/
theorem after_perm {ι : Type} {acts : ι → List Act} {l l' : List ι} (hl : l.Perm l')
    (h : l.Pairwise fun i j => ∀ a ∈ acts i, ∀ b ∈ acts j, a.Apart b) (w : World) :
    (w.after (l.flatMap acts)).Alike (w.after (l'.flatMap acts)) := by
  induction hl generalizing w with
  | nil => exact .refl _
  | cons i _ ih =>
    rw [List.flatMap_cons, List.flatMap_cons, after_append, after_append]
    exact ih (List.pairwise_cons.1 h).2 _
  | swap i j l =>
    have hswap := (List.pairwise_cons.1 h).1 i List.mem_cons_self
    have hrest := (after_append_comm hswap w).after (l.flatMap acts)
    simpa only [List.flatMap_cons, after_append] using hrest
  | trans hl _ ih ih' =>
    refine (ih h w).trans (ih' (hl.pairwise h fun h b hb a ha => (h a ha b hb).symm) w)

end World

end MailCampaign
