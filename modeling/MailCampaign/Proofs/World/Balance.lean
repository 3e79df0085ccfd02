import MailCampaign.Proofs.Cursor.Tally
import MailCampaign.Proofs.World.Rebuild

/-!
# Totals that count the cursors

A world is balanced when the totals of every campaign count its cursors and those of them that ended.
Postings preserve that, though within a posting a cursor is written before it is counted. So a journal
that is cut off there rebuilds a world in which the totals of one campaign are one behind.
-/

namespace MailCampaign.World

variable {w v u r : World} {prunes : Prop} {entries done rest : List Entry} {c d : Cursor}
  {campaign : Uuid} {count : Totals → Totals}

/-- The totals of every campaign count its cursors. -/
def Balanced (w : World) : Prop :=
  ∀ campaign, (w.statistics.of campaign).outcomes = w.cursors.tally campaign

/-- The totals of one campaign lack a count, those of all others count their cursors. -/
def Behind (w : World) (campaign : Uuid) (count : Totals → Totals) : Prop :=
  ∀ campaign', w.cursors.tally campaign' =
    if campaign' = campaign then count (w.statistics.of campaign').outcomes
    else (w.statistics.of campaign').outcomes

theorem balanced_empty (n : Nat) : (empty n).Balanced := fun _ => rfl

/-- What is left of two worlds when only cursors and totals count. -/
theorem same_of_slots (h : ∀ s : Slot, ¬ s.Fleeting → r.at? s = w.at? s) :
    r.cursors.tally = w.cursors.tally ∧ ∀ campaign, r.statistics.of campaign = w.statistics.of campaign := by
  constructor
  · refine CursorStore.tally_congr fun key => ?_
    exact Option.map_injective (fun _ _ h => Datum.cursor.inj h) (h (.cursor key) id)
  · intro campaign
    have htotals := Option.map_injective (fun _ _ h => Datum.totals.inj h) (h (.totals campaign) id)
    rw [Statistics.of, htotals]
    rfl

theorem Balanced.of_slots (hw : w.Balanced)
    (h : ∀ s : Slot, ¬ s.Fleeting → r.at? s = w.at? s) : r.Balanced := by
  obtain ⟨htally, hof⟩ := same_of_slots h
  intro campaign
  rw [htally, hof]
  exact hw campaign

theorem Behind.of_slots (hw : w.Behind campaign count)
    (h : ∀ s : Slot, ¬ s.Fleeting → r.at? s = w.at? s) : r.Behind campaign count := by
  obtain ⟨htally, hof⟩ := same_of_slots h
  intro campaign'
  rw [htally, hof]
  exact hw campaign'

/-- Once the count is made up for, the world is balanced. -/
theorem Behind.counted {statistics : Statistics} (h : w.Behind campaign count)
    (hof : ∀ campaign', (statistics.of campaign').outcomes =
      if campaign' = campaign then count (w.statistics.of campaign').outcomes
      else (w.statistics.of campaign').outcomes) :
    ({ w with statistics } : World).Balanced := fun campaign' => (hof campaign').trans (h campaign').symm

/-! ## Postings -/

theorem Balanced.ended (hw : w.Balanced) (hc : w.cursors.find? c.key = some c) (hd : c.Ended d) :
    (w.storeCursor c d).Behind c.campaignId fun t => t.finish d.state := by
  intro campaign'
  refine (CursorStore.tally_ended (w.find?_storeCursor c d) (hd.sameLead.key ▸ hc)
    hd.sameLead.campaignId hd.running).trans ?_
  rw [hd.sameLead.campaignId, ← hw campaign']
  rfl

theorem Balanced.entered (hw : w.Balanced) (hn : w.cursors.find? d.key = none)
    (hd : d.state.terminal = false) (nextId : Nat) (leads : Table String Lead) :
    ({ w with cursors := w.cursors.addNew d, nextId, leads } : World).Behind d.campaignId
      Totals.enroll := by
  intro campaign'
  refine (CursorStore.tally_entered (w.cursors.find?_addNew d) hn hd).trans ?_
  rw [← hw campaign']

theorem outcomes_countOutcome (s : Statistics) (campaign campaign' : Uuid) (state : CursorState) :
    ((s.countOutcome campaign state).of campaign').outcomes =
      if campaign' = campaign then (s.of campaign').outcomes.finish state
      else (s.of campaign').outcomes := by
  by_cases hc : campaign' = campaign
  · rw [hc, of_finish, Totals.outcomes_finish, if_pos rfl]
  · simp [Statistics.countOutcome, Statistics.of, Table.find?_insert_of_ne, hc]

theorem outcomes_countEnrolled (s : Statistics) (campaign campaign' : Uuid) :
    ((s.countEnrolled campaign).of campaign').outcomes =
      if campaign' = campaign then (s.of campaign').outcomes.enroll
      else (s.of campaign').outcomes := by
  by_cases hc : campaign' = campaign
  · rw [hc, of_enroll, Totals.outcomes_enroll, if_pos rfl]
  · simp [Statistics.countEnrolled, Statistics.of, Table.find?_insert_of_ne, hc]

theorem Posting.balanced (h : w.Posting prunes entries v) (hw : w.Balanced) : v.Balanced := by
  cases h with
  | rewritten hc hd =>
    intro campaign
    have hstate := hd.terminal_eq
    refine (hw campaign).trans (CursorStore.tally_rewritten (w.find?_storeCursor _ _)
      (hd.sameLead.key ▸ hc) hd.sameLead.campaignId ?_).symm
    cases hd with
    | kept => exact .inl rfl
    | running _ hc hd => exact .inr ⟨hc, hd⟩
  | ended hc hd =>
    rw [countOutcome_of_terminal _ _ hd.terminal]
    exact (hw.ended hc hd).counted (outcomes_countOutcome _ _ · _)
  | @enrolled g campaign lead id now nextId hg hn =>
    have hbehind : (w.withLead _ lead nextId).Behind campaign Totals.enroll :=
      hw.entered (d := Engine.newCursor id g campaign lead.id now) hn rfl nextId
        (w.leads.insert lead.id lead)
    rw [countEnrolled_eq]
    exact hbehind.counted (outcomes_countEnrolled _ _ ·)
  | @counted e received s hs =>
    intro campaign
    refine Eq.trans ?_ (hw campaign)
    show (s.of campaign).outcomes = _
    rw [Statistics.of_count hs]
    split
    · next hc => rw [hc, Totals.outcomes_count]
    · rfl
  | _ => exact hw

theorem Postings.balanced (h : w.Postings prunes v) (hw : w.Balanced) : v.Balanced :=
  h.preserves hw fun _ _ _ h => h.balanced

/-! ## Journals that are cut off -/

/-- What is done of a posting and what is to come, where there is some of both. -/
inductive Halfway (u : World) : List Entry → List Entry → Prop
  | ended {c d : Cursor} {totals : Totals} : u.cursors.find? c.key = some c → c.Ended d →
      Halfway u [.cursor d] [.stats d.campaignId totals none none]
  | entered {c : Cursor} {lead : Lead} {totals : Totals} : u.cursors.find? c.key = none →
      c.state = .pending → lead.id = c.leadId →
      Halfway u [.cursor c] [.lead lead, .stats c.campaignId totals none none]
  | profiled {c : Cursor} {lead : Lead} {totals : Totals} : u.cursors.find? c.key = none →
      c.state = .pending → lead.id = c.leadId →
      Halfway u [.cursor c, .lead lead] [.stats c.campaignId totals none none]
  | versioned {d : Definition} {campaign : Uuid} {status : CampaignStatus} :
      Halfway u [.flow d] [.campaign campaign status]

theorem Posting.halfway (h : u.Posting prunes (done ++ rest) v) :
    done = [] ∨ rest = [] ∨ u.Halfway done rest := by
  rcases done with _ | ⟨e, done⟩
  · exact .inl rfl
  rcases rest with _ | ⟨e', rest⟩
  · exact .inr (.inl rfl)
  refine .inr (.inr ?_)
  generalize he : e :: done ++ e' :: rest = entries at h
  cases h with
  | @ended c d hc hd =>
    obtain ⟨rfl, hmore⟩ := List.cons.inj he
    cases done with
    | nil =>
      obtain ⟨rfl, rfl⟩ := List.cons.inj hmore
      exact hd.sameLead.campaignId ▸ .ended hc hd
    | cons => simp at hmore
  | @enrolled g campaign lead id now nextId hg hn =>
    obtain ⟨rfl, hmore⟩ := List.cons.inj he
    rcases done with _ | ⟨e₂, _ | ⟨e₃, done⟩⟩
    · obtain ⟨rfl, rfl⟩ := List.cons.inj hmore
      exact .entered hn rfl rfl
    · obtain ⟨rfl, hstats⟩ := List.cons.inj hmore
      obtain ⟨rfl, rfl⟩ := List.cons.inj hstats
      exact .profiled hn rfl rfl
    · simp at hmore
  | activated =>
    obtain ⟨rfl, hmore⟩ := List.cons.inj he
    cases done with
    | nil =>
      obtain ⟨rfl, rfl⟩ := List.cons.inj hmore
      exact .versioned
    | cons => simp at hmore
  | _ => simp at he

/-- A world with the slots of a balanced one and what is done of a posting on top is balanced, or a
cursor is done that ended or entered and the totals that count it are to come. -/
theorem Balanced.cut (hw : u.Balanced) (h : u.Begun done rest)
    (hr : ∀ s : Slot, ¬ s.Fleeting → r.at? s = (written done s).or (u.at? s)) :
    r.Balanced ∨
    (∃ c totals, c.state.terminal = true ∧ done = [.cursor c] ∧
      rest = [.stats c.campaignId totals none none] ∧
      r.Behind c.campaignId fun t => t.finish c.state) ∨
    ∃ c lead totals, c.state = .pending ∧ lead.id = c.leadId ∧
      (done = [.cursor c] ∨ done = [.cursor c, .lead lead]) ∧
      done ++ rest = [.cursor c, .lead lead, .stats c.campaignId totals none none] ∧
      r.Behind c.campaignId Totals.enroll := by
  cases h with
  | nothing => exact .inl (hw.of_slots fun s hs => hr s hs)
  | posting h =>
    rcases h.halfway with rfl | rfl | hhalfway
    · exact .inl (hw.of_slots fun s hs => hr s hs)
    · refine .inl ((h.balanced hw).of_slots fun s hs => ?_)
      rw [hr s hs, ← List.append_nil done]
      exact (((h.fills s).resolve_right fun hp => hs hp.2.1)).symm
    · cases hhalfway with
      | @ended c d totals hc hd =>
        have hbehind := hw.ended hc hd
        rw [← hd.sameLead.campaignId] at hbehind
        exact .inr (.inl ⟨d, totals, hd.terminal, rfl, rfl,
          hbehind.of_slots fun s hs => (hr s hs).trans (at?_storeCursor u c d s).symm⟩)
      | @entered c lead totals hn hs hlead =>
        have hbehind := hw.entered hn (by rw [hs]; rfl) u.nextId u.leads
        exact .inr (.inr ⟨c, lead, totals, hs, hlead, .inl rfl, rfl,
          hbehind.of_slots fun s hs => (hr s hs).trans (at?_cursors (u.cursors.find?_addNew c) s).symm⟩)
      | @profiled c lead totals hn hs hlead =>
        have hbehind : (u.withLead c lead u.nextId).Behind c.campaignId Totals.enroll :=
          hw.entered hn (by rw [hs]; rfl) u.nextId (u.leads.insert lead.id lead)
        exact .inr (.inr ⟨c, lead, totals, hs, hlead, .inr rfl, rfl,
          hbehind.of_slots fun s hs => (hr s hs).trans (at?_withLead u c lead u.nextId s).symm⟩)
      | @versioned d =>
        have hversion : (u.replay (.flow d)).Balanced := hw
        exact .inl (hversion.of_slots fun s hs => (hr s hs).trans
          (at?_replay (e := .flow d) (fun c hc => by cases hc) s).symm)

end MailCampaign.World
