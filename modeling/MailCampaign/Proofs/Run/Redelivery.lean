import MailCampaign.Proofs.Engine.Feed
import MailCampaign.Proofs.Engine.Ingest
import MailCampaign.Proofs.Run.Restart
import MailCampaign.Proofs.World.Registry

/-!
# Events that are delivered again after a crash

An engine may stop anywhere within taking in an event. A fresh engine then replays what is there of the
journal, and the event, which nobody has confirmed, is delivered again.

1. The totals, the key and the first occurrence are one entry, so the event is counted in its campaign
   once, and it is routed again unless its key was settled.
2. The cursors come after that entry, each with one of its own. A cursor whose entry is missing while
   the totals are there is not counted on again.
-/

namespace MailCampaign

variable {σ τ : Type} {svc : Services σ} {allowed : Fault → Prop}
  {s : Session (σ × List Moment)} {e : Engagement} {now : Instant} {done : List Entry}

/-! ## What is written -/

/-- What is written in a slot stands in an entry. -/
theorem exists_of_written {l : List Entry} {slot : Slot} {x : Datum} (h : written l slot = some x) :
    ∃ entry ∈ l, entry.datum? slot = some x := by
  induction l with
  | nil => cases h
  | cons entry rest ih =>
    rcases Option.or_eq_some_iff.1 h with hrest | ⟨-, hhere⟩
    · obtain ⟨other, hmem, hx⟩ := ih hrest
      exact ⟨other, List.mem_cons_of_mem _ hmem, hx⟩
    · exact ⟨entry, List.mem_cons_self, hhere⟩

theorem isSome_written_of_mem {l : List Entry} {slot : Slot} {entry : Entry} (h : entry ∈ l)
    (hx : (entry.datum? slot).isSome = true) : (written l slot).isSome = true := by
  induction l with
  | nil => cases h
  | cons other rest ih =>
    rw [written_cons, Option.isSome_or]
    rcases List.mem_cons.1 h with rfl | h
    · rw [hx, Bool.or_true]
    · rw [ih h, Bool.true_or]

/-- The entries that an operation adds to the journal. -/
def Operation.writes (svc : Services σ) (op : Operation) (s : Session (σ × List Moment)) :
    List Entry :=
  (journaled (op.next svc s).world.trace).drop (journaled s.world.trace).length

theorem Operation.journaled_next (svc : Services σ) {op : Operation} (hfresh : op.Fresh s.world) :
    journaled (op.next svc s).world.trace = journaled s.world.trace ++ op.writes svc s := by
  have hpostings : s.world.Postings op.Prunes (op.next svc s).world := op.perform_postings hfresh
  obtain ⟨more, hmore⟩ := hpostings.journal_grows
  rw [writes, ← hmore, List.drop_left]

/-! ## Keys that were not seen -/

/-- A key that was not let in, and of which no pruning on the way of a run has forgotten anything. -/
structure Session.Unseen (svc : Services σ) (allowed : Fault → Prop) (s : Session (σ × List Moment))
    (key : String) : Prop where
  fresh : s.world.seen.table.find? key = none
  remembered : ∀ slot x, slot = .settled key ∨ slot = .applied key → ¬ s.Forgot svc allowed slot x

/-- Of such a key the journal says what the world knows. -/
theorem Session.Unseen.written {key : String} (hkey : s.Unseen svc allowed key)
    (h : Run svc allowed s) {slot : Slot} (hslot : slot = .settled key ∨ slot = .applied key) :
    written (journaled s.world.trace) slot = s.world.at? slot := by
  cases hw : MailCampaign.written (journaled s.world.trace) slot with
  | some x =>
    rcases h.written_last hw with hthere | ⟨-, -, hforgot⟩
    · exact hthere.symm
    · exact absurd hforgot (hkey.remembered slot x hslot)
  | none =>
    obtain ⟨m, hm⟩ := h.postings
    cases hx : s.world.at? slot with
    | none => rfl
    | some x =>
      have hwritten := (World.rebuilds_journaled hm 0).fleeting slot x hx
      rw [hw, World.at?_empty] at hwritten
      cases hwritten

/-- A key that the journal of a run does not mention was never seen. -/
theorem Session.Unseen.of_journal {key : String} (hfresh : s.world.seen.table.find? key = none)
    (hsettled : MailCampaign.written (journaled s.world.trace) (.settled key) = none)
    (happlied : MailCampaign.written (journaled s.world.trace) (.applied key) = none) :
    s.Unseen svc allowed key where
  fresh := hfresh
  remembered := by
    rintro slot x hslot ⟨u, v, ttlHours, t, hu, hprune, hs, hx, -⟩
    obtain ⟨m, hm⟩ := hu.postings
    have hwritten := (World.rebuilds_journaled hm 0).fleeting slot x hx
    rw [World.at?_empty, Option.or_none] at hwritten
    have hgrows := (hprune.postings.mono fun _ => trivial).journal_grows.trans hs.postings.journal_grows
    have hsome := isSome_written hgrows (by rw [hwritten]; rfl)
    rcases hslot with rfl | rfl
    · rw [hsettled] at hsome
      cases hsome
    · rw [happlied] at hsome
      cases hsome

/-! ## What is left of an engine -/

/-- A slot that pruning does not empty as long as it spares a key. -/
def Slot.Spared (key : String) (slot : Slot) : Prop :=
  ¬ slot.Fleeting ∨ slot = .settled key ∨ slot = .applied key

namespace World

variable {key : String} {w v r : World}

/-- Any prunings that forget nothing of a key. -/
abbrev Spares (key : String) : World → World → Prop :=
  Relation.ReflTransGen fun w v => ∃ ttlHours now, ((Change.prune ttlHours now).on w).2 = v ∧
    v.seen.table.find? key = w.seen.table.find? key ∧
    v.statistics.applied.find? key = w.statistics.applied.find? key

/-- A world rebuilt from all that was written before a world, and some entries behind it. -/
structure Salvaged (key : String) (w : World) (done : List Entry) (r : World) : Prop where
  slots : ∀ slot : Slot, slot.Spared key → r.at? slot = (written done slot).or (w.at? slot)
  settled : ∀ a, r.seen.table.find? key = some a → a.settled = true
  indexed : r.cursors.Indexed

theorem Salvaged.spares (h : w.Salvaged key done r) (hv : r.Spares key v) :
    w.Salvaged key done v := by
  induction hv with
  | refl => exact h
  | @tail r v _ hstep ih =>
    obtain ⟨ttlHours, now, hv, hseen, happlied⟩ := hstep
    rcases r.on_prune_cases ttlHours now with hsame | ⟨ttl, cutoff, -, -, hpruned⟩
    · rw [← hv, hsame]
      exact ih
    · rw [hpruned] at hv
      refine ⟨fun slot hslot => (?_ : v.at? slot = r.at? slot).trans (ih.slots slot hslot),
        fun a ha => ih.settled a (hseen ▸ ha), by rw [← hv]; exact ih.indexed⟩
      rcases hslot with hlasting | rfl | rfl
      · rcases at?_pruned r cutoff slot with hkept | ⟨hfleeting, -⟩
        · rw [← hv, hkept]
        · exact absurd hfleeting hlasting
      · rw [at?, hseen, at?]
      · rw [at?, happlied, at?]

end World

/-- Replaying what a run has written, with the first entries of an operation, salvages its world. -/
theorem Run.salvaged (h : Run svc allowed s) {key : String} (hkey : s.Unseen svc allowed key)
    {op : Operation} (hfresh : op.Fresh s.world) (hdone : done <+: op.writes svc s) (n : Nat) :
    s.world.Salvaged key done ((World.empty n).replayAll (journaled s.world.trace ++ done)) := by
  obtain ⟨m, hm⟩ := h.postings
  have hnext : (World.empty m).Postings True (op.next svc s).world :=
    hm.trans ((op.perform_postings hfresh).mono fun _ => trivial)
  have hpart : journaled s.world.trace ++ done <+: journaled (op.next svc s).world.trace := by
    rw [Operation.journaled_next svc hfresh]
    exact (List.prefix_append_right_inj _).2 hdone
  have hgrounds := (World.rebuilds_journaled hnext n).grounds.start hpart
  refine ⟨fun slot hslot => ?_, fun a ha => (World.allSettled_empty n).replayAll _ key a ha, ?_⟩
  · rw [World.at?_replayAll hgrounds, World.at?_empty, Option.or_none, written_append]
    refine congrArg _ ?_
    rcases hslot with hlasting | hkeyed
    · rw [← (World.rebuilds_journaled hm n).lasting slot hlasting, World.at?_empty, Option.or_none]
    · exact hkey.written h hkeyed
  · refine ((World.copies_empty n (op.next svc s).world).replayAll fun d hd => ?_).indexed
    exact hnext.hasVersion_journaled (fun d hd => absurd hd List.not_mem_nil) d
      (hpart.subset hd)

/-! ## Engagement in what is left -/

namespace World

variable {w v r z : World} {key : CursorKey} {campaign : Uuid} {l : List Entry}

theorem engagedIn_congr (h : r.at? (.totals campaign) = w.at? (.totals campaign)) :
    r.statistics.of campaign = w.statistics.of campaign := by
  have htotals := Option.map_injective (fun _ _ => Datum.totals.inj) h
  rw [Statistics.of, htotals, Statistics.of]

theorem engagedOn_congr (h : r.at? (.cursor key) = w.at? (.cursor key)) :
    r.cursors.find? key = w.cursors.find? key :=
  Option.map_injective (fun _ _ => Datum.cursor.inj) h

/-- Entries that affirm the engagement of a world, and perhaps the key of an event. -/
def Vouched (v : World) (e : Engagement) (now : Instant) (l : List Entry) : Prop :=
  ∀ x ∈ l, v.Affirms x ∨ x = .seenKey e.key now

/-- What is written of a campaign is what the world knows of its engagement. -/
theorem Vouched.engagedIn (hl : v.Vouched e now l) {x : Datum}
    (hx : written l (.totals campaign) = some x) (hr : r.at? (.totals campaign) = some x) :
    r.engagedIn campaign = v.engagedIn campaign := by
  obtain ⟨entry, hmem, hdatum⟩ := exists_of_written hx
  rcases hl entry hmem with (hc | @⟨campaign', totals, applied, unique, htotals⟩) | rfl
  · cases hdatum
  · rw [Entry.datum?] at hdatum
    split at hdatum
    · next hc =>
      obtain rfl := Option.some.inj hdatum
      obtain ⟨t, ht, he⟩ := Option.map_eq_some_iff.1 hr
      rw [World.engagedIn, Statistics.of, ht, hc, htotals, Datum.totals.inj he]
      rfl
    · cases hdatum
  · cases hdatum

/-- What is written of a cursor is what the world knows of its engagement. -/
theorem Vouched.engagedOn (hl : v.Vouched e now l) {x : Datum}
    (hx : written l (.cursor key) = some x) (hr : r.at? (.cursor key) = some x) :
    r.engagedOn key = v.engagedOn key := by
  obtain ⟨c, rfl, rfl, hmem⟩ := written_cursor hx
  obtain ⟨d, hd, he⟩ := Option.map_eq_some_iff.1 hr
  rcases hl _ hmem with hc | hc
  · cases hc with
    | cursor hc => rw [World.engagedOn, hd, hc, Datum.cursor.inj he, Option.map_some]
  · cases hc

/-- The key is seen in what is left exactly when it was settled before the crash. -/
theorem Salvaged.seen_iff (h : w.Salvaged e.key l r) (hl : v.Vouched e now l)
    (hfresh : w.seen.table.find? e.key = none) :
    (∃ a, r.seen.table.find? e.key = some a) ↔ .seenKey e.key now ∈ l := by
  have hslot : r.at? (.settled e.key) = written l (.settled e.key) := by
    rw [h.slots _ (.inr (.inl rfl)), at?, hfresh]
    exact Option.or_none
  constructor
  · rintro ⟨a, ha⟩
    rw [at?, ha, Option.filter_some, if_pos (h.settled a ha), Option.map_some] at hslot
    obtain ⟨entry, hmem, hdatum⟩ := exists_of_written hslot.symm
    rcases hl entry hmem with (hc | _) | rfl
    · cases hdatum
    · cases hdatum
    · exact hmem
  · intro hmem
    have hsome : (written l (.settled e.key)).isSome = true :=
      isSome_written_of_mem hmem (by rw [Entry.datum?, if_pos rfl]; rfl)
    rw [← hslot, at?, Option.isSome_map] at hsome
    obtain ⟨a, ha⟩ := Option.isSome_iff_exists.1 hsome
    exact ⟨a, (Option.filter_eq_some_iff.1 ha).1⟩

/-- What is left knows of a campaign what was known after the event, or before it. -/
theorem Salvaged.engagedIn (h : w.Salvaged e.key l r) (hl : v.Vouched e now l) (campaign : Uuid) :
    r.engagedIn campaign = v.engagedIn campaign ∨
      written l (.totals campaign) = none ∧ r.engagedIn campaign = w.engagedIn campaign := by
  have hslot := h.slots (.totals campaign) (.inl not_false)
  cases hx : written l (.totals campaign) with
  | some x => exact .inl (hl.engagedIn hx (by rw [hslot, hx, Option.some_or]))
  | none =>
    rw [hx, Option.none_or] at hslot
    exact .inr ⟨rfl, by rw [World.engagedIn, engagedIn_congr hslot, World.engagedIn]⟩

/-- What is left knows of a cursor what was known after the event if the cursor was written, and what
was known before the event if it was not. -/
theorem Salvaged.engagedOn (h : w.Salvaged e.key l r) (hl : v.Vouched e now l) (key : CursorKey) :
    r.engagedOn key = v.engagedOn key ∧ (∃ c, .cursor c ∈ l ∧ c.key = key) ∨
      r.engagedOn key = w.engagedOn key ∧ ∀ c, .cursor c ∈ l → c.key ≠ key := by
  have hslot := h.slots (.cursor key) (.inl not_false)
  cases hx : written l (.cursor key) with
  | some x =>
    obtain ⟨c, rfl, hkey, hmem⟩ := written_cursor hx
    exact .inl ⟨hl.engagedOn hx (by rw [hslot, hx, Option.some_or]), c, hmem, hkey⟩
  | none =>
    rw [hx, Option.none_or] at hslot
    refine .inr ⟨by rw [World.engagedOn, engagedOn_congr hslot, World.engagedOn], ?_⟩
    rintro c hmem rfl
    have hsome : (written l (.cursor c.key)).isSome = true :=
      isSome_written_of_mem hmem (by rw [Entry.datum?, if_pos rfl]; rfl)
    rw [hx] at hsome
    cases hsome

/-- The same event takes worlds that know the same to the same engagement. -/
theorem Engages.sameEngagement (h : w.Engages e v) (hr : r.Engages e z)
    (hslots : ∀ slot : Slot, ¬ slot.Fleeting → r.at? slot = w.at? slot) : v.SameEngagement z := by
  have hof := fun campaign => engagedIn_congr (hslots (.totals campaign) not_false)
  have hfind := fun key => engagedOn_congr (hslots (.cursor key) not_false)
  have hfirst : r.statistics.isFirst e = w.statistics.isFirst e := by
    have hslot := hslots (.first (Statistics.kindOf e)) not_false
    simp only [at?] at hslot
    unfold Statistics.isFirst
    split at hslot <;> split at hslot <;> simp_all
  refine ⟨fun campaign => ?_, fun key => ?_⟩
  · rw [hr.campaigns, h.campaigns, hof, hfirst, World.engagedIn, hof, World.engagedIn]
  · rw [hr.cursors, h.cursors, hfind, World.engagedOn, hfind, World.engagedOn]

end World

/-! ## The second delivery -/

/-- A cursor on which a crash loses the count of an event: the totals are written with the key of the
event, and the cursor is not. -/
def Engagement.LostOn (e : Engagement) (now : Instant) (done : List Entry) (key : CursorKey) : Prop :=
  (∃ totals unique, .stats e.campaignId totals (some (e.key, now)) unique ∈ done) ∧
    ∀ c, .cursor c ∈ done → c.key ≠ key

namespace World

variable {w v r z : World} {later : Instant}

/-- The engagement when an event is delivered again after a crash: in campaigns it is that of the first
delivery, and on cursors too, unless the count on them was lost. -/
structure Redelivered (e : Engagement) (now : Instant) (done : List Entry) (w v z : World) : Prop where
  campaigns : ∀ campaign, z.engagedIn campaign = v.engagedIn campaign
  counted : ∀ key, ¬ e.LostOn now done key → z.engagedOn key = v.engagedOn key
  lost : ∀ key, e.LostOn now done key → z.engagedOn key = w.engagedOn key

/-- What becomes of what is left when the event is delivered again. -/
def Repeats (e : Engagement) (later : Instant) (r z : World) : Prop :=
  (∃ a, r.seen.table.find? e.key = some a) ∧ z = r ∨ Engine.Ingested e later r z

/-- Where the key was counted already, the second delivery changes no engagement. -/
theorem Repeats.sameEngagement (h : r.Repeats e later z)
    (hr : (r.at? (.applied e.key)).isSome = true) : r.SameEngagement z := by
  rw [at?, Option.isSome_map] at hr
  obtain ⟨t, ht⟩ := Option.isSome_iff_exists.1 hr
  rcases h with ⟨-, rfl⟩ | h
  · exact ⟨fun _ => rfl, fun _ => rfl⟩
  · exact h.again t ht

/-- An event whose key was counted before it came in is never counted. -/
theorem Salvaged.redelivered_counted (h : w.Salvaged e.key done r) (hv : w.SameEngagement v)
    (hdone : v.Vouched e now done) (hz : r.Repeats e later z) {t : Instant}
    (hw : w.statistics.applied.find? e.key = some t) : Redelivered e now done w v z := by
  have hrz : r.SameEngagement z := by
    refine hz.sameEngagement ?_
    rw [h.slots _ (.inr (.inr rfl)), Option.isSome_or, at?, hw]
    exact Bool.or_true _
  have hcursors : ∀ key, z.engagedOn key = v.engagedOn key := by
    intro key
    rw [hrz.cursors]
    rcases h.engagedOn hdone key with ⟨hnew, -⟩ | ⟨hold, -⟩
    · exact hnew
    · rw [hold, hv.cursors]
  refine ⟨fun campaign => ?_, fun key _ => hcursors key, fun key _ => ?_⟩
  · rw [hrz.campaigns]
    rcases h.engagedIn hdone campaign with hnew | ⟨-, hold⟩
    · exact hnew
    · rw [hold, hv.campaigns]
  · rw [hcursors key, hv.cursors]

/-- If nothing of the event is left, the second delivery does what the first one did. -/
theorem Salvaged.redelivered_nothing (h : w.Salvaged e.key [] r) (hv : w.Engages e v)
    (hfresh : w.seen.table.find? e.key = none) (hz : r.Repeats e later z)
    (hw : w.statistics.applied.find? e.key = none) : Redelivered e now [] w v z := by
  have hvouched : v.Vouched e now [] := fun x hx => absurd hx List.not_mem_nil
  have hfirst : r.Engages e z := by
    rcases hz with ⟨hseen, -⟩ | hz
    · exact absurd ((h.seen_iff hvouched hfresh).1 hseen) List.not_mem_nil
    · refine hz.first ?_
      have happlied := h.slots (.applied e.key) (.inr (.inr rfl))
      rw [at?, at?, hw] at happlied
      exact Option.map_eq_none_iff.1 happlied
  have hsame := hv.sameEngagement hfirst fun slot hslot => h.slots slot (.inl hslot)
  refine ⟨hsame.campaigns, fun key _ => hsame.cursors key, ?_⟩
  rintro key ⟨⟨totals, unique, hmem⟩, -⟩
  exact absurd hmem List.not_mem_nil

/-- If the totals are left, the second delivery counts nothing, also on the cursors that are not. -/
theorem Salvaged.redelivered_totals {totals : Totals} {unique : Option (String × EngagementKind)}
    (h : w.Salvaged e.key (.stats e.campaignId totals (some (e.key, now)) unique :: done) r)
    (hv : w.Engages e v)
    (hdone : v.Vouched e now (.stats e.campaignId totals (some (e.key, now)) unique :: done))
    (hz : r.Repeats e later z) :
    Redelivered e now (.stats e.campaignId totals (some (e.key, now)) unique :: done) w v z := by
  have hwritten : ∀ slot, ((Entry.stats e.campaignId totals (some (e.key, now)) unique).datum?
      slot).isSome = true → (written (.stats e.campaignId totals (some (e.key, now)) unique :: done)
        slot).isSome = true := fun slot => isSome_written_of_mem List.mem_cons_self
  have hrz : r.SameEngagement z := by
    refine hz.sameEngagement ?_
    rw [h.slots _ (.inr (.inr rfl)), Option.isSome_or, hwritten _ (by simp [Entry.datum?]),
      Bool.true_or]
  refine ⟨fun campaign => ?_, fun key hnot => ?_, fun key hlost => ?_⟩
  · rw [hrz.campaigns]
    rcases h.engagedIn hdone campaign with hnew | ⟨hnone, hold⟩
    · exact hnew
    · have hother : campaign ≠ e.campaignId := by
        rintro rfl
        have hsome := hwritten (.totals e.campaignId) (by simp [Entry.datum?])
        rw [hnone] at hsome
        cases hsome
      rw [hold, hv.campaigns, if_neg hother]
  · rw [hrz.cursors]
    rcases h.engagedOn hdone key with ⟨hnew, -⟩ | ⟨-, hmissing⟩
    · exact hnew
    · exact absurd ⟨⟨totals, unique, List.mem_cons_self⟩, hmissing⟩ hnot
  · rw [hrz.cursors]
    rcases h.engagedOn hdone key with ⟨-, c, hmem, hkey⟩ | ⟨hold, -⟩
    · exact absurd hkey (hlost.2 c hmem)
    · exact hold

theorem Salvaged.redelivered (h : w.Salvaged e.key done r)
    (hfresh : w.seen.table.find? e.key = none) (hv : Engine.Ingested e now w v)
    (hdone : journaled w.trace ++ done <+: journaled v.trace) (hz : r.Repeats e later z) :
    v.Vouched e now done ∧ Redelivered e now done w v z := by
  obtain ⟨l, last, htrace, haffirm, hlast, hstats⟩ := hv.entries
  rw [htrace, List.prefix_append_right_inj] at hdone
  have hvouched : v.Vouched e now done := by
    intro x hx
    rcases List.mem_append.1 (hdone.subset hx) with hl | hx
    · exact .inl (haffirm x hl)
    · rcases hlast with rfl | rfl
      · cases hx
      · exact .inr (List.mem_singleton.1 hx)
  refine ⟨hvouched, ?_⟩
  cases hw : w.statistics.applied.find? e.key with
  | some t => exact h.redelivered_counted (hv.again t hw) hvouched hz hw
  | none =>
    obtain ⟨totals, unique, rest, rfl⟩ := hstats hw
    cases done with
    | nil => exact h.redelivered_nothing (hv.first hw) hfresh hz hw
    | cons entry done =>
      obtain ⟨rfl, -⟩ := List.cons_prefix_cons.1 hdone
      exact h.redelivered_totals (hv.first hw) hvouched hz

end World

namespace Run

/-- A run takes in an event of a key that is not there. -/
theorem ingested (h : Run svc allowed s) (now : Instant) (hquiet : svc.mailer.Quiet)
    (hfresh : s.world.seen.table.find? e.key = none) :
    Engine.Ingested e now s.world ((Operation.ingest e now).next svc s).world := by
  show Engine.Ingested e now s.world ((discard (Engine.ingest svc.recording e now)).on s).2.world
  rw [Engine.on_discard]
  exact Engine.ingest_ingested (fun state => hquiet state.1) h.tidy.indexed hfresh

/-- An event that was being taken in when the engine stopped is delivered again to what is left. -/
theorem redelivered (h : Run svc allowed s) (hquiet : svc.mailer.Quiet)
    (hkey : s.Unseen svc allowed e.key) (hdone : done <+: (Operation.ingest e now).writes svc s)
    {n : Nat} {r : World}
    (hr : ((World.empty n).replayAll (journaled s.world.trace ++ done)).Spares e.key r)
    {again : Services τ} (hagain : again.mailer.Quiet) (mailer : τ) (later : Instant) :
    ((∃ a, r.seen.table.find? e.key = some a) ↔ .seenKey e.key now ∈ done) ∧
      World.Redelivered e now done s.world ((Operation.ingest e now).next svc s).world
        ((Engine.ingest again e later).on ⟨r, mailer⟩).2.world := by
  have hop : (Operation.ingest e now).Fresh s.world := trivial
  have hcut : s.world.Salvaged e.key done
      ((World.empty n).replayAll (journaled s.world.trace ++ done)) :=
    h.salvaged hkey hop hdone n
  have hsalvaged := hcut.spares hr
  have hfirst := h.ingested now hquiet hkey.fresh
  have hsecond : r.Repeats e later ((Engine.ingest again e later).on ⟨r, mailer⟩).2.world := by
    cases ha : r.seen.table.find? e.key with
    | some a => exact .inl ⟨⟨a, ha⟩, by rw [Engine.on_ingest_seen (s := ⟨r, mailer⟩) ha]⟩
    | none => exact .inr (Engine.ingest_ingested (s := ⟨r, mailer⟩) hagain hsalvaged.indexed ha)
  have hpart : journaled s.world.trace ++ done <+:
      journaled ((Operation.ingest e now).next svc s).world.trace := by
    rw [Operation.journaled_next svc hop]
    exact (List.prefix_append_right_inj _).2 hdone
  obtain ⟨hvouched, hredelivered⟩ := hsalvaged.redelivered hkey.fresh hfirst hpart hsecond
  exact ⟨hsalvaged.seen_iff hvouched hkey.fresh, hredelivered⟩

/-- **Campaigns count an event once across a crash.** Let a run take in an event whose key was not seen,
with a mailer that lets nothing happen meanwhile, and let it stop after any part of what it writes down
for it. A fresh engine replays the journal, perhaps forgets other keys, and is given the event again,
by which time pruning has not forgotten its key. Then the engagement in every campaign is what it would
have been without the crash. The event is turned away if its key was settled before the crash; else it
is counted, unless it was before, and goes on its way again. -/
theorem campaigns_count_once (h : Run svc allowed s) (hquiet : svc.mailer.Quiet)
    (hkey : s.Unseen svc allowed e.key) (hdone : done <+: (Operation.ingest e now).writes svc s)
    {n : Nat} {r : World}
    (hr : ((World.empty n).replayAll (journaled s.world.trace ++ done)).Spares e.key r)
    {again : Services τ} (hagain : again.mailer.Quiet) (mailer : τ) (later : Instant) :
    (∀ campaign,
      (((Engine.ingest again e later).on ⟨r, mailer⟩).2.world.statistics.of campaign).engagement =
        (((Operation.ingest e now).next svc s).world.statistics.of campaign).engagement) ∧
    (.seenKey e.key now ∈ done → (Engine.ingest again e later).on ⟨r, mailer⟩ =
      (.ok { key := e.key, duplicate := true }, ⟨r, mailer⟩)) ∧
    (.seenKey e.key now ∉ done → ∃ seen, r.seen.receive e.key later = some seen ∧
      (Engine.ingest again e later).on ⟨r, mailer⟩ =
        (Engine.process again e later).on
          ⟨({ r with seen } : World).count e none later, mailer⟩) := by
  obtain ⟨hseen, hredelivered⟩ := h.redelivered hquiet hkey hdone hr hagain mailer later
  refine ⟨hredelivered.campaigns, fun hsettled => ?_, fun hopen => ?_⟩
  · obtain ⟨a, ha⟩ := hseen.2 hsettled
    exact Engine.on_ingest_seen (s := ⟨r, mailer⟩) ha again later
  · cases hreceive : r.seen.receive e.key later with
    | none => exact absurd (hseen.1 (SeenKeys.receive_eq_none_iff.1 hreceive)) hopen
    | some seen => exact ⟨seen, rfl, Engine.on_ingest_new (s := ⟨r, mailer⟩) hreceive again⟩

end Run

/-- A lead opens a mail, as the first that is known of it, in a short run. -/
theorem unseen_opened (allowed : Fault → Prop) :
    Session.enrolled.Unseen .plain allowed (Engagement.ofAda .opened).key :=
  .of_journal (by decide +kernel) (by decide +kernel) (by decide +kernel)

/-- What is there of the entries for the event if the engine stops after the first of them. -/
def openedCut : List Entry :=
  ((Operation.ingest (.ofAda .opened) .epoch).writes .plain .enrolled).take 1

/-- The world that a fresh engine finds in the journal then. -/
def World.openedLeft : World :=
  (World.empty 9).replayAll (journaled Session.enrolled.world.trace ++ openedCut)

namespace Run

theorem campaigns_count_once_opened :
    (∀ campaign, (((Engine.ingest .plain (.ofAda .opened) .secondDay).on
        ⟨.openedLeft, 0⟩).2.world.statistics.of campaign).engagement =
      (((Operation.ingest (.ofAda .opened) .epoch).next .plain
        .enrolled).world.statistics.of campaign).engagement) ∧
    (.seenKey (Engagement.ofAda .opened).key .epoch ∈ openedCut →
      (Engine.ingest .plain (.ofAda .opened) .secondDay).on ⟨.openedLeft, 0⟩ =
        (.ok { key := (Engagement.ofAda .opened).key, duplicate := true }, ⟨.openedLeft, 0⟩)) ∧
    (.seenKey (Engagement.ofAda .opened).key .epoch ∉ openedCut →
      ∃ seen, World.openedLeft.seen.receive (Engagement.ofAda .opened).key .secondDay = some seen ∧
        (Engine.ingest .plain (.ofAda .opened) .secondDay).on ⟨.openedLeft, 0⟩ =
          (Engine.process .plain (.ofAda .opened) .secondDay).on
            ⟨({ World.openedLeft with seen } : World).count (.ofAda .opened) none .secondDay, 0⟩) :=
  campaigns_count_once (run_enrolled fun _ => True) quiet_logMailer (unseen_opened _)
    (List.take_prefix 1 _) .refl quiet_logMailer 0 .secondDay

/-- **Cursors count an event at most once across a crash.** In the same situation the engagement counted
on a cursor is what it would have been without the crash, that is one event more on a running cursor of
the lead in the campaign of the event. There is one exception: when the totals were written with the key
of the event and the cursor was not, it stays what it was before the event. -/
theorem cursors_count_at_most_once (h : Run svc allowed s) (hquiet : svc.mailer.Quiet)
    (hkey : s.Unseen svc allowed e.key) (hdone : done <+: (Operation.ingest e now).writes svc s)
    {n : Nat} {r : World}
    (hr : ((World.empty n).replayAll (journaled s.world.trace ++ done)).Spares e.key r)
    {again : Services τ} (hagain : again.mailer.Quiet) (mailer : τ) (later : Instant) :
    (∀ key, ¬ e.LostOn now done key →
      ((Engine.ingest again e later).on ⟨r, mailer⟩).2.world.engagedOn key =
        ((Operation.ingest e now).next svc s).world.engagedOn key) ∧
    (∀ key, e.LostOn now done key →
      ((Engine.ingest again e later).on ⟨r, mailer⟩).2.world.engagedOn key =
        s.world.engagedOn key) ∧
    ∀ c, s.world.cursors.find? c.key = some c → c.leadId = e.leadId → c.campaignId = e.campaignId →
      c.state.terminal = false → s.world.statistics.applied.find? e.key = none →
      ((Operation.ingest e now).next svc s).world.engagedOn c.key =
        some (c.counters.count e.kind).engagement := by
  obtain ⟨-, hredelivered⟩ := h.redelivered hquiet hkey hdone hr hagain mailer later
  refine ⟨hredelivered.counted, hredelivered.lost, fun c hc hlead hcampaign hrun hnew => ?_⟩
  have hengages := (h.ingested now hquiet hkey.fresh).first hnew
  have hkeylead : c.key.leadId = e.leadId := hlead
  rw [hengages.cursors, if_pos hkeylead, hc, Option.map_some,
    World.counted_of_running hcampaign hrun]

theorem cursors_count_at_most_once_opened :
    (∀ key, ¬ (Engagement.ofAda .opened).LostOn .epoch openedCut key →
      ((Engine.ingest .plain (.ofAda .opened) .secondDay).on
          ⟨.openedLeft, 0⟩).2.world.engagedOn key =
        ((Operation.ingest (.ofAda .opened) .epoch).next .plain .enrolled).world.engagedOn key) ∧
    (∀ key, (Engagement.ofAda .opened).LostOn .epoch openedCut key →
      ((Engine.ingest .plain (.ofAda .opened) .secondDay).on
          ⟨.openedLeft, 0⟩).2.world.engagedOn key =
        Session.enrolled.world.engagedOn key) ∧
    ∀ c, Session.enrolled.world.cursors.find? c.key = some c →
      c.leadId = (Engagement.ofAda .opened).leadId →
      c.campaignId = (Engagement.ofAda .opened).campaignId → c.state.terminal = false →
      Session.enrolled.world.statistics.applied.find? (Engagement.ofAda .opened).key = none →
      ((Operation.ingest (.ofAda .opened) .epoch).next .plain .enrolled).world.engagedOn c.key =
        some (c.counters.count (Engagement.ofAda .opened).kind).engagement :=
  cursors_count_at_most_once (run_enrolled fun _ => True) quiet_logMailer (unseen_opened _)
    (List.take_prefix 1 _) .refl quiet_logMailer 0 .secondDay

/-- The engine stops behind the totals for a mail that was opened, and the event is delivered again. The
waiting cursor of the lead then never counts what it would have counted without the crash. -/
theorem opened_lost_after_crash :
    Run .plain (fun _ => False) .enrolled ∧ logMailer.Quiet ∧
    Session.enrolled.Unseen .plain (fun _ => False) (Engagement.ofAda .opened).key ∧
    openedCut <+: (Operation.ingest (.ofAda .opened) .epoch).writes .plain .enrolled ∧
    (Session.enrolled.world.cursors.find? ⟨.ofNat 0, "ada"⟩).map
      (fun c => (c.campaignId, c.state, c.counters.opens)) =
        some ((Engagement.ofAda .opened).campaignId, .waitingCondition, 0) ∧
    (((Operation.ingest (.ofAda .opened) .epoch).next .plain
      .enrolled).world.cursors.find? ⟨.ofNat 0, "ada"⟩).map (·.counters.opens) = some 1 ∧
    (((Engine.ingest .plain (.ofAda .opened) .secondDay).on
      ⟨.openedLeft, 0⟩).2.world.cursors.find? ⟨.ofNat 0, "ada"⟩).map (·.counters.opens) = some 0 :=
  ⟨run_enrolled _, quiet_logMailer, unseen_opened _, List.take_prefix 1 _, by decide +kernel,
    by decide +kernel, by decide +kernel⟩

end Run

end MailCampaign
