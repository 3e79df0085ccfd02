import MailCampaign.Proofs.World.Posting
import Mathlib.Data.List.Induction

/-!
# The slots of a world

What a world knows is spread over slots: the version of an id, the status of a campaign, the profile
of a lead, the cursor of a key, the totals of a campaign, a first occurrence, the time of a counted
key and that of a settled key. An entry of the journal fills slots with whole values, so of a list of
entries only the last one for a slot matters. Replaying a list fills the slots it writes and leaves
the others, and a posting does to a world what its entries say.
-/

namespace MailCampaign

/-- A place in a world that holds one value. -/
inductive Slot where
  | flow (id : Uuid)
  | campaign (id : Uuid)
  | lead (id : String)
  | cursor (key : CursorKey)
  | totals (campaign : Uuid)
  | first (f : FirstOfKind)
  | applied (key : String)
  | settled (key : String)
deriving DecidableEq

/-- A slot that pruning may empty. -/
def Slot.Fleeting : Slot → Prop
  | applied _ | settled _ => True
  | _ => False

/-- The value of a slot. -/
inductive Datum where
  | flow (g : Graph)
  | status (status : CampaignStatus)
  | lead (l : Lead)
  | cursor (c : Cursor)
  | totals (t : Totals)
  | occurred
  | time (t : Instant)

/-- What a world has in a slot. Keys that are not settled count for nothing. -/
def World.at? (w : World) : Slot → Option Datum
  | .flow id => (w.flows.find? id).map .flow
  | .campaign id => (w.campaigns.find? id).map .status
  | .lead id => (w.leads.find? id).map .lead
  | .cursor key => (w.cursors.find? key).map .cursor
  | .totals campaign => (w.statistics.totals.find? campaign).map .totals
  | .first f => if f ∈ w.statistics.firsts then some .occurred else none
  | .applied key => (w.statistics.applied.find? key).map .time
  | .settled key => ((w.seen.table.find? key).filter Admission.settled).map fun a => .time a.time

/-- What an entry writes in a slot. -/
def Entry.datum? : Entry → Slot → Option Datum
  | .flow d, .flow id =>
    match Graph.compile d with
    | .ok g => if id = g.id then some (.flow g) else none
    | .error _ => none
  | .campaign i status, .campaign id => if id = i then some (.status status) else none
  | .lead l, .lead id => if id = l.id then some (.lead l) else none
  | .cursor c, .cursor key => if key = c.key then some (.cursor c) else none
  | .stats c totals _ _, .totals id => if id = c then some (.totals totals) else none
  | .stats c _ _ unique, .first f =>
    if c = f.campaign ∧ unique = some (f.leadId, f.kind) then some .occurred else none
  | .stats _ _ applied _, .applied key =>
    (applied.filter fun a => a.1 = key).map fun a => .time a.2
  | .seenKey k time, .settled key => if key = k then some (.time time) else none
  | _, _ => none

/-- What a list of entries leaves written in a slot: the last value wins. -/
def written : List Entry → Slot → Option Datum
  | [], _ => none
  | e :: rest, s => (written rest s).or (e.datum? s)

@[simp] theorem written_nil (s : Slot) : written [] s = none := rfl

@[simp] theorem written_cons (e : Entry) (l : List Entry) (s : Slot) :
    written (e :: l) s = (written l s).or (e.datum? s) := rfl

@[simp] theorem written_append (l l' : List Entry) (s : Slot) :
    written (l ++ l') s = (written l' s).or (written l s) := by
  induction l with
  | nil => simp
  | cons e rest ih => rw [List.cons_append, written_cons, written_cons, ih, Option.or_assoc]

/-- What entries at the end write, or leave to the entries before them. -/
theorem written_append_or {l l' : List Entry} {s : Slot} {x : Datum} {o o' : Option Datum}
    (h : (written l' s).or o = some x) (ho : o = some x → (written l s).or o' = some x) :
    (written (l ++ l') s).or o' = some x := by
  rw [written_append, Option.or_assoc]
  exact Option.or_eq_some_iff.2 ((Option.or_eq_some_iff.1 h).imp_right (And.imp_right ho))

/-- Entries at the end win. -/
theorem written_of_suffix {l l' : List Entry} {s : Slot} {x : Datum} (h : l' <:+ l)
    (hx : written l' s = some x) : written l s = some x := by
  obtain ⟨l₀, rfl⟩ := h
  rw [written_append, hx, Option.some_or]

/-- What is written in a slot is never taken back. -/
theorem isSome_written {l l' : List Entry} {s : Slot} (h : l' <+: l)
    (hx : (written l' s).isSome = true) : (written l s).isSome = true := by
  obtain ⟨l₀, rfl⟩ := h
  rw [written_append, Option.isSome_or, hx, Bool.or_true]

namespace World

variable {w v r : World} {prunes : Prop} {entries l : List Entry} {s : Slot}

@[simp] theorem at?_journal (w : World) (e : Entry) (s : Slot) : (w.journal e).at? s = w.at? s := by
  cases s <;> rfl

@[simp] theorem at?_emit (w : World) (e : Effect) (s : Slot) : (w.emit e).at? s = w.at? s := by
  cases s <;> rfl

@[simp] theorem at?_empty (n : Nat) (s : Slot) : (empty n).at? s = none := by
  cases s <;> rfl

theorem at?_nextId (w : World) (nextId : Nat) (s : Slot) :
    ({ w with nextId } : World).at? s = w.at? s := by
  cases s <;> rfl

theorem knowsFlow_iff {c : Cursor} :
    knowsFlow w.flows c = true ↔ (w.at? (.flow c.flowId)).isSome = true := by
  simp [knowsFlow, at?]

/-! ## Replaying -/

/-- A cursor is put in its slot. -/
theorem at?_cursors {cursors : CursorStore} {c : Cursor}
    (h : ∀ key, cursors.find? key = if key = c.key then some c else w.cursors.find? key) (s : Slot) :
    ({ w with cursors } : World).at? s = ((Entry.cursor c).datum? s).or (w.at? s) := by
  cases s with
  | cursor key =>
    simp only [at?, Entry.datum?, h]
    split <;> rfl
  | _ => rfl

theorem at?_flows {flows : FlowStore} {d : Definition}
    (h : ∀ id, flows.find? id = match Graph.compile d with
      | .ok g => if id = g.id then some g else w.flows.find? id
      | .error _ => w.flows.find? id) (s : Slot) :
    ({ w with flows } : World).at? s = ((Entry.flow d).datum? s).or (w.at? s) := by
  cases s with
  | flow id =>
    simp only [at?, Entry.datum?, h]
    cases Graph.compile d with
    | error v => rfl
    | ok g =>
      by_cases hid : id = g.id <;> simp [hid]
  | _ => rfl

theorem at?_leads (w : World) (l : Lead) (s : Slot) :
    ({ w with leads := w.leads.insert l.id l } : World).at? s =
      ((Entry.lead l).datum? s).or (w.at? s) := by
  cases s with
  | lead id =>
    simp only [at?, Entry.datum?, Table.find?_insert]
    split <;> rfl
  | _ => rfl

theorem at?_campaigns (w : World) (id : Uuid) (status : CampaignStatus) (s : Slot) :
    ({ w with campaigns := w.campaigns.insert id status } : World).at? s =
      ((Entry.campaign id status).datum? s).or (w.at? s) := by
  cases s with
  | campaign id' =>
    simp only [at?, Entry.datum?, Table.find?_insert]
    split <;> rfl
  | _ => rfl

theorem at?_statistics (w : World) (campaign : Uuid) (totals : Totals)
    (applied : Option (String × Instant)) (unique : Option (String × EngagementKind)) (s : Slot) :
    ({ w with statistics := w.statistics.replay campaign totals applied unique } : World).at? s =
      ((Entry.stats campaign totals applied unique).datum? s).or (w.at? s) := by
  cases s with
  | totals id =>
    simp only [at?, Entry.datum?, Statistics.replay, Table.find?_insert]
    split <;> rfl
  | first f =>
    obtain ⟨c, leadId, kind⟩ := f
    cases unique with
    | none =>
      rw [Entry.datum?, if_neg (by simp), Option.none_or]
      rfl
    | some u =>
      obtain ⟨leadId', kind'⟩ := u
      simp only [at?, Entry.datum?, Statistics.replay, Statistics.mem_remember,
        FirstOfKind.mk.injEq, Option.some.injEq, Prod.mk.injEq]
      by_cases hf : campaign = c ∧ leadId' = leadId ∧ kind' = kind
      · obtain ⟨rfl, rfl, rfl⟩ := hf
        simp
      · rw [if_neg hf, Option.none_or]
        refine if_congr (or_iff_left fun h => hf ?_) rfl rfl
        exact ⟨h.1.symm, h.2.1.symm, h.2.2.symm⟩
  | applied key =>
    cases applied with
    | none => simp [at?, Entry.datum?, Statistics.replay, Table.insertAll]
    | some a =>
      simp only [at?, Entry.datum?, Statistics.replay, Table.insertAll, Option.toList_some,
        List.foldl_cons, List.foldl_nil, Table.find?_insert, Option.filter_some]
      by_cases hk : key = a.1
      · simp [hk]
      · have hk' : ¬ a.1 = key := fun h => hk h.symm
        simp [hk, hk']
  | _ => rfl

theorem at?_seen (w : World) (k : String) (time : Instant) (s : Slot) :
    ({ w with seen := w.seen.restore [(k, time)] } : World).at? s =
      ((Entry.seenKey k time).datum? s).or (w.at? s) := by
  cases s with
  | settled key =>
    simp only [at?, Entry.datum?, SeenKeys.restore, Table.insertAll, List.map_cons, List.map_nil,
      List.foldl_cons, List.foldl_nil, Table.find?_insert]
    split <;> simp
  | _ => rfl

/-- Replaying an entry fills the slots that it writes. -/
theorem at?_replay {e : Entry}
    (he : ∀ c, e = .cursor c → (w.at? (.flow c.flowId)).isSome = true) (s : Slot) :
    (w.replay e).at? s = (e.datum? s).or (w.at? s) := by
  cases e with
  | flow d =>
    refine at?_flows (fun id => ?_) s
    cases hd : Graph.compile d with
    | error v => simp [FlowStore.accept, FlowStore.restore, hd, bind, Except.bind]
    | ok g =>
      rw [← (Graph.compile_eq_ok_iff.1 hd).1, FlowStore.find?_accept]
  | campaign id status => exact at?_campaigns w id status s
  | lead l => exact at?_leads w l s
  | cursor c =>
    rw [replay, if_pos (knowsFlow_iff.2 (he c rfl))]
    exact at?_cursors (w.cursors.find?_put c) s
  | stats campaign totals applied unique => exact at?_statistics w campaign totals applied unique s
  | seenKey k time => exact at?_seen w k time s

/-- The versions of the cursors in a list of entries are known by the time they are needed. -/
def Grounds (w : World) (l : List Entry) : Prop :=
  ∀ l' c, l' ++ [.cursor c] <+: l →
    ((written l' (.flow c.flowId)).or (w.at? (.flow c.flowId))).isSome = true

theorem Grounds.start {l' : List Entry} (h : w.Grounds l) (hl : l' <+: l) : w.Grounds l' :=
  fun l₀ c h₀ => h l₀ c (h₀.trans hl)

/-- More entries are grounded if the versions of their cursors are known before them. -/
theorem Grounds.append {l' : List Entry} (h : w.Grounds l)
    (hc : ∀ c, .cursor c ∈ l' →
      ((written l (.flow c.flowId)).or (w.at? (.flow c.flowId))).isSome = true) :
    w.Grounds (l ++ l') := by
  intro l₀ c hl
  rcases List.prefix_or_prefix_of_prefix hl (List.prefix_append l l') with hold | hnew
  · exact h l₀ c hold
  · rcases List.prefix_concat_iff.1 hnew with rfl | ⟨l₁, rfl⟩
    · exact h l₀ c List.prefix_rfl
    · rw [List.append_assoc, List.prefix_append_right_inj] at hl
      have hknown := hc c (hl.subset (by simp))
      rw [Option.isSome_or, Bool.or_eq_true] at hknown ⊢
      exact hknown.imp_left (isSome_written (List.prefix_append l l₁))

/-- Replaying a list fills the slots that are written in it and leaves the others. -/
theorem at?_replayAll (h : w.Grounds l) (s : Slot) :
    (w.replayAll l).at? s = (written l s).or (w.at? s) := by
  induction l using List.reverseRecOn generalizing s with
  | nil => rfl
  | append_singleton rest e ih =>
    have hrest := ih (h.start (List.prefix_append rest [e]))
    rw [replayAll_concat, at?_replay, hrest, written_append, ← Option.or_assoc]
    · rfl
    · rintro c rfl
      rw [hrest]
      exact h rest c List.prefix_rfl

/-! ## Postings -/

theorem at?_storeCursor (w : World) (c d : Cursor) (s : Slot) :
    (w.storeCursor c d).at? s = ((Entry.cursor d).datum? s).or (w.at? s) := by
  rw [storeCursor, at?_journal]
  exact at?_cursors (w.cursors.find?_amend c d) s

/-- Counting an event does to the statistics what the entry for it says. -/
theorem replay_of_count {s t : Statistics} {e : Engagement} {received : Instant}
    (h : s.count e received = some t) :
    s.replay e.campaignId (t.of e.campaignId) (some (e.key, received))
      (if s.isFirst e then some (e.leadId, e.kind) else none) = t := by
  have hof := Statistics.of_count h e.campaignId
  rw [if_pos rfl] at hof
  rw [hof]
  unfold Statistics.count at h
  split at h
  · cases h
  · obtain rfl := Option.some.inj h
    by_cases hf : s.isFirst e = true
    · rw [if_pos hf]
      rfl
    · have hold : Statistics.kindOf e ∈ s.firsts := by simpa [Statistics.isFirst] using hf
      rw [if_neg hf]
      simp [Statistics.replay, Statistics.remember, hold, Table.insertAll]

theorem at?_of_received {key : String} {now : Instant} {seen : SeenKeys}
    (h : w.seen.receive key now = some seen) (s : Slot) :
    ({ w with seen } : World).at? s = w.at? s := by
  cases s with
  | settled k =>
    -- The key was not there before, and it is not settled now.
    simp only [at?, SeenKeys.find?_receive h]
    split
    · next hk =>
      have hnone : w.seen.table.find? key = none := by
        by_contra hsome
        obtain ⟨a, ha⟩ := Option.ne_none_iff_exists'.1 hsome
        rw [SeenKeys.receive_eq_none_iff.2 ⟨a, ha⟩] at h
        cases h
      rw [hk, hnone]
      rfl
    · rfl
  | _ => rfl

theorem at?_of_settled {key : String} {a : Admission} (ha : w.seen.table.find? key = some a)
    (s : Slot) :
    ({ w with seen := (w.seen.settle key).1 } : World).at? s =
      ((Entry.seenKey key a.time).datum? s).or (w.at? s) := by
  cases s with
  | settled k =>
    simp only [at?, Entry.datum?, SeenKeys.find?_settle, ha]
    split <;> simp
  | _ => rfl

/-- Pruning empties fleeting slots and leaves all others. -/
theorem at?_pruned (w : World) (cutoff : Instant) (s : Slot) :
    ({ w with seen := w.seen.prune cutoff, statistics := w.statistics.prune cutoff } : World).at? s =
        w.at? s ∨
      s.Fleeting ∧ ({ w with
        seen := w.seen.prune cutoff, statistics := w.statistics.prune cutoff } : World).at? s = none := by
  cases s with
  | applied key =>
    simp only [at?, Statistics.prune, Table.find?_keepIf]
    cases w.statistics.applied.find? key with
    | none => exact .inl rfl
    | some t => by_cases ht : cutoff ≤ t <;> simp [Option.filter_some, ht, Slot.Fleeting]
  | settled key =>
    simp only [at?, SeenKeys.find?_prune]
    cases w.seen.table.find? key with
    | none => exact .inl rfl
    | some a => by_cases ht : cutoff ≤ a.time <;> simp [Option.filter_some, ht, Slot.Fleeting]
  | _ => exact .inl rfl

theorem at?_activated {id campaign : Uuid} {document : Document} {now : Instant} {flows : FlowStore}
    {g : Graph} (h : w.flows.activate id campaign document now = .ok (flows, g)) (s : Slot) :
    ({ w with flows } : World).at? s = ((Entry.flow g.definition).datum? s).or (w.at? s) := by
  refine at?_flows (fun id => ?_) s
  rw [FlowStore.find?_activate h, Graph.compile_definition]

/-- What is known after a lead entered. -/
theorem at?_withLead (w : World) (c : Cursor) (lead : Lead) (nextId : Nat) (s : Slot) :
    (w.withLead c lead nextId).at? s = (written [.cursor c, .lead lead] s).or (w.at? s) := by
  have hcursor : ({ w with cursors := w.cursors.addNew c, nextId } : World).at? s = _ :=
    (at?_nextId _ nextId s).trans (at?_cursors (w.cursors.find?_addNew c) s)
  rw [withLead, at?_journal, at?_journal]
  refine ((at?_leads _ lead s).trans (congrArg _ hcursor)).trans ?_
  simp only [written_cons, written_nil, Option.none_or, Option.or_assoc]

/-- A posting fills the slots that its entries write and leaves the others, unless it prunes. -/
theorem Posting.fills (h : w.Posting prunes entries v) (s : Slot) :
    v.at? s = (written entries s).or (w.at? s) ∨ prunes ∧ s.Fleeting ∧ v.at? s = none := by
  cases h with
  | told he => exact .inl (at?_emit w _ s)
  | rewritten => exact .inl (at?_storeCursor w _ _ s)
  | @ended c d _ hd =>
    left
    rw [countOutcome_of_terminal _ _ hd.terminal, at?_journal]
    refine (at?_statistics (w.storeCursor c d) c.campaignId _ none none s).trans ?_
    rw [at?_storeCursor, ← Option.or_assoc]
    rfl
  | @enrolled g campaign lead id now nextId =>
    left
    rw [countEnrolled_eq, at?_journal]
    refine (at?_statistics _ campaign _ none none s).trans ?_
    rw [at?_withLead]
    simp only [written_cons, written_nil, Option.none_or, Option.or_assoc]
    rfl
  | @activated id campaign document now flows g nextId ha =>
    left
    have hflow : ({ w with flows, nextId } : World).at? s = _ :=
      (at?_nextId _ nextId s).trans (at?_activated ha s)
    rw [setStatus, at?_journal]
    refine (at?_campaigns _ campaign _ s).trans ?_
    rw [at?_journal, hflow, ← Option.or_assoc]
    rfl
  | status campaign status =>
    left
    rw [setStatus, at?_journal]
    exact at?_campaigns w campaign status s
  | @counted e received t ht =>
    left
    rw [at?_journal]
    have h := at?_statistics w e.campaignId (t.of e.campaignId) (some (e.key, received))
      (if w.statistics.isFirst e then some (e.leadId, e.kind) else none) s
    rw [replay_of_count ht] at h
    exact h
  | received hs => exact .inl (at?_of_received hs s)
  | settled ha =>
    left
    rw [at?_journal]
    exact at?_of_settled ha s
  | pruned cutoff hp => exact (at?_pruned w cutoff s).imp id fun h => ⟨hp, h⟩

end World

end MailCampaign
