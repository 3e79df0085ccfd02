import MailCampaign.Proofs.World.Follow
import MailCampaign.Proofs.World.Moves
import MailCampaign.Proofs.World.Replay

/-!
# What is posted in the journal

A posting is a change of a world together with the entries that it takes to write the change down.
Most postings have one entry. Three have more: a version of a flow comes with the status of its
campaign, a cursor that ends comes with the totals that count it, and a new cursor comes with the
profile of its lead and the totals. Whatever the engine does is a row of postings, and keys that were
seen are only forgotten by pruning.
-/

namespace MailCampaign

/-! ## Forms of a cursor -/

/-- A new form of a cursor that does not end it, or the cursor as it was. -/
inductive Cursor.Rewritten (c : Cursor) : Cursor → Prop
  | kept : Rewritten c c
  | running {d : Cursor} : c.SameLead d → c.state.terminal = false → d.state.terminal = false →
      Rewritten c d

/-- A new form of a cursor that ends it. -/
structure Cursor.Ended (c d : Cursor) : Prop where
  sameLead : c.SameLead d
  running : c.state.terminal = false
  terminal : d.state.terminal = true

namespace Cursor

variable {c d : Cursor}

theorem Rewritten.sameLead (h : c.Rewritten d) : c.SameLead d := by
  cases h with
  | kept => exact .refl c
  | running hs => exact hs

theorem Rewritten.terminal_eq (h : c.Rewritten d) : d.state.terminal = c.state.terminal := by
  cases h with
  | kept => rfl
  | running _ hc hd => rw [hc, hd]

theorem rewritten_counted (e : Engagement) (c : Cursor) : c.Rewritten (World.counted e c) := by
  by_cases ht : c.state.terminal = true
  · rw [World.counted, ht, Bool.or_true, if_pos rfl]
    exact .kept
  · rw [Bool.not_eq_true] at ht
    refine .running (c.sameLead_counted e) ht ?_
    rw [counted_eq]
    exact ht

end Cursor

namespace World

/-! ## Postings -/

/-- The world with a new cursor and the profile of its lead. -/
def withLead (w : World) (c : Cursor) (lead : Lead) (nextId : Nat) : World :=
  (World.journal { w with cursors := w.cursors.addNew c, nextId, leads := w.leads.insert lead.id lead }
    (.cursor c)).journal (.lead lead)

/-- A change of a world with the entries that write it down. -/
inductive Posting (prunes : Prop) (w : World) : List Entry → World → Prop
  /-- Something goes out that is no entry. -/
  | told {e : Effect} : (∀ entry, e ≠ .entry entry) → Posting prunes w [] (w.emit e)
  /-- A cursor takes a form that does not end it. -/
  | rewritten {c d : Cursor} : w.cursors.find? c.key = some c → c.Rewritten d →
      Posting prunes w [.cursor d] (w.storeCursor c d)
  /-- A cursor ends and is counted. -/
  | ended {c d : Cursor} : w.cursors.find? c.key = some c → c.Ended d →
      Posting prunes w
        [.cursor d, .stats c.campaignId ((w.statistics.of c.campaignId).finish d.state) none none]
        ((w.storeCursor c d).countOutcome c.campaignId d.state)
  /-- A lead enters the active version of a campaign and is counted. -/
  | enrolled {g : Graph} {campaign : Uuid} {lead : Lead} (id : Uuid) (now : Instant) (nextId : Nat) :
      w.flows.active? campaign = some g → w.cursors.find? ⟨g.id, lead.id⟩ = none →
      Posting prunes w
        [.cursor (Engine.newCursor id g campaign lead.id now), .lead lead,
          .stats campaign (w.statistics.of campaign).enroll none none]
        ((w.withLead (Engine.newCursor id g campaign lead.id now) lead nextId).countEnrolled campaign)
  /-- A new version is activated; its campaign keeps its status. -/
  | activated {id campaign : Uuid} {document : Document} {now : Instant} {flows : FlowStore}
      {g : Graph} (nextId : Nat) : w.flows.activate id campaign document now = .ok (flows, g) →
      w.flows.find? id = none →
      Posting prunes w [.flow g.definition, .campaign campaign (w.status campaign)]
        ((World.journal { w with flows, nextId } (.flow g.definition)).setStatus campaign
          (w.status campaign))
  /-- A campaign gets a status. -/
  | status (campaign : Uuid) (status : CampaignStatus) :
      Posting prunes w [.campaign campaign status] (w.setStatus campaign status)
  /-- An event is counted in the totals of its campaign. -/
  | counted {e : Engagement} {received : Instant} {s : Statistics} :
      w.statistics.count e received = some s →
      Posting prunes w
        [.stats e.campaignId (s.of e.campaignId) (some (e.key, received))
          (if w.statistics.isFirst e then some (e.leadId, e.kind) else none)]
        (World.journal { w with statistics := s }
          (.stats e.campaignId (s.of e.campaignId) (some (e.key, received))
            (if w.statistics.isFirst e then some (e.leadId, e.kind) else none)))
  /-- A key is let in. -/
  | received {key : String} {now : Instant} {seen : SeenKeys} :
      w.seen.receive key now = some seen → Posting prunes w [] { w with seen }
  /-- A key is settled. -/
  | settled {key : String} {a : Admission} : w.seen.table.find? key = some a →
      Posting prunes w [.seenKey key a.time]
        (World.journal { w with seen := (w.seen.settle key).1 } (.seenKey key a.time))
  /-- Keys from before an instant are forgotten. -/
  | pruned (cutoff : Instant) : prunes →
      Posting prunes w []
        { w with seen := w.seen.prune cutoff, statistics := w.statistics.prune cutoff }

/-- Any number of postings. -/
abbrev Postings (prunes : Prop) : World → World → Prop :=
  Relation.ReflTransGen fun w v => ∃ entries, w.Posting prunes entries v

variable {prunes : Prop} {w v u : World} {entries : List Entry}

theorem Posting.single (h : w.Posting prunes entries v) : w.Postings prunes v := .single ⟨_, h⟩

theorem Posting.mono {prunes' : Prop} (h : w.Posting prunes entries v) (hp : prunes → prunes') :
    w.Posting prunes' entries v := by
  cases h with
  | told he => exact .told he
  | rewritten hc hd => exact .rewritten hc hd
  | ended hc hd => exact .ended hc hd
  | enrolled id now nextId hg hn => exact .enrolled id now nextId hg hn
  | activated nextId ha hf => exact .activated nextId ha hf
  | status campaign status => exact .status campaign status
  | counted hs => exact .counted hs
  | received hs => exact .received hs
  | settled ha => exact .settled ha
  | pruned cutoff h => exact .pruned cutoff (hp h)

theorem Postings.mono {prunes' : Prop} (h : w.Postings prunes v) (hp : prunes → prunes') :
    w.Postings prunes' v :=
  Relation.ReflTransGen.mono (fun _ _ ⟨E, hE⟩ => ⟨E, hE.mono hp⟩) _ _ h

/-- What every posting preserves holds after any number of them. -/
@[elab_as_elim]
theorem Postings.preserves {motive : World → Prop} (h : w.Postings prunes v) (hw : motive w)
    (hstep : ∀ u entries v, u.Posting prunes entries v → motive u → motive v) : motive v := by
  induction h with
  | refl => exact hw
  | tail _ h ih =>
    obtain ⟨entries, h⟩ := h
    exact hstep _ entries _ h ih

theorem told_report (w : World) (c : Cursor) (milestone : Milestone) (nodeId : String)
    (now : Instant) : w.Posting prunes [] (w.report c milestone nodeId now) := by
  unfold report
  exact .told fun entry h => by cases h

theorem of_finish (s : Statistics) (campaign : Uuid) (state : CursorState) :
    (s.countOutcome campaign state).of campaign = (s.of campaign).finish state := by
  simp [Statistics.countOutcome, Statistics.of]

theorem of_enroll (s : Statistics) (campaign : Uuid) :
    (s.countEnrolled campaign).of campaign = (s.of campaign).enroll := by
  simp [Statistics.countEnrolled, Statistics.of]

theorem countOutcome_of_terminal (w : World) (campaign : Uuid) {state : CursorState}
    (h : state.terminal = true) :
    w.countOutcome campaign state =
      World.journal { w with statistics := w.statistics.countOutcome campaign state }
        (.stats campaign ((w.statistics.of campaign).finish state) none none) := by
  rw [countOutcome, if_pos h, journalTotals, of_finish]

theorem countEnrolled_eq (w : World) (campaign : Uuid) :
    w.countEnrolled campaign =
      World.journal { w with statistics := w.statistics.countEnrolled campaign }
        (.stats campaign (w.statistics.of campaign).enroll none none) := by
  rw [countEnrolled, journalTotals, of_enroll]

theorem journaled_journal (w : World) (e : Entry) :
    journaled (w.journal e).trace = journaled w.trace ++ [e] := journaled_cons_entry e w.trace

theorem journaled_emit (w : World) {e : Effect} (h : ∀ entry, e ≠ .entry entry) :
    journaled (w.emit e).trace = journaled w.trace := by
  cases e with
  | entry e => exact absurd rfl (h e)
  | activity a => exact journaled_cons_activity a _
  | submission s => exact journaled_cons_submission s _

/-- A posting adds its entries to the journal. -/
theorem Posting.journaled_eq (h : w.Posting prunes entries v) :
    journaled v.trace = journaled w.trace ++ entries := by
  cases h with
  | told he => rw [journaled_emit w he, List.append_nil]
  | ended _ hd =>
    rw [countOutcome_of_terminal _ _ hd.terminal, journaled_journal]
    simp only [storeCursor, journaled_journal, List.append_assoc]
    rfl
  | enrolled =>
    rw [countEnrolled_eq, journaled_journal]
    simp only [withLead, journaled_journal, List.append_assoc]
    rfl
  | activated => simp [setStatus, journaled_journal]
  | received => exact (List.append_nil _).symm
  | pruned => exact (List.append_nil _).symm
  | rewritten => exact journaled_journal _ _
  | status => exact journaled_journal _ _
  | counted => exact journaled_journal _ _
  | settled => exact journaled_journal _ _

/-- The journal only grows. -/
theorem Postings.journal_grows (h : w.Postings prunes v) :
    journaled w.trace <+: journaled v.trace := by
  refine h.preserves List.prefix_rfl fun u entries v h ih => ?_
  rw [h.journaled_eq]
  exact ih.trans (List.prefix_append _ _)

/-! ## What stays -/

/-- A stored cursor stays stored for the same lead in the same version and campaign. -/
theorem Posting.stored (h : w.Posting prunes entries v) {key : CursorKey} {b : Cursor}
    (hb : w.cursors.find? key = some b) : ∃ d, v.cursors.find? key = some d ∧ b.SameLead d := by
  have hstore : ∀ {c d : Cursor}, w.cursors.find? c.key = some c → c.SameLead d →
      ∃ e, (w.storeCursor c d).cursors.find? key = some e ∧ b.SameLead e := by
    intro c d hc hd
    rw [find?_storeCursor, hd.key]
    by_cases hk : key = c.key
    · obtain rfl : c = b := Option.some.inj (by rw [← hc, ← hk, hb])
      exact ⟨d, if_pos hk, hd⟩
    · exact ⟨b, (if_neg hk).trans hb, .refl b⟩
  cases h with
  | rewritten hc hd => exact hstore hc hd.sameLead
  | ended hc hd =>
    rw [countOutcome_of_terminal _ _ hd.terminal]
    exact hstore hc hd.sameLead
  | enrolled id now nextId hg hn =>
    refine ⟨b, (CursorStore.find?_addNew _ _ _).trans ((if_neg ?_).trans hb), .refl b⟩
    rintro rfl
    exact Option.some_ne_none b (hb.symm.trans hn)
  | _ => exact ⟨b, hb, .refl b⟩

/-- The cursor of a key is stored for its campaign. -/
def Holds (w : World) (c : Cursor) : Prop :=
  ∃ d, w.cursors.find? c.key = some d ∧ d.campaignId = c.campaignId

theorem Holds.of_find? {c : Cursor} (h : w.cursors.find? c.key = some c) : w.Holds c := ⟨c, h, rfl⟩

theorem Holds.after {c : Cursor} (hc : w.Holds c) (h : w.Postings prunes v) : v.Holds c := by
  refine h.preserves hc ?_
  rintro u entries v h ⟨d, hd, hcampaign⟩
  obtain ⟨e, he, hsame⟩ := h.stored hd
  exact ⟨e, he, hsame.campaignId.trans hcampaign⟩

end World

end MailCampaign
