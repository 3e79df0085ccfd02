import MailCampaign.Proofs.World.Engaged
import MailCampaign.Proofs.World.Slot

/-!
# Two registries of keys

The key of an event is kept twice: among the seen keys, which turn away what comes again, and in the
statistics, which count a key once. The registries agree when both have a key with the same instant or
neither has it. Only keys under which the engine counts its own mails may differ, as those are never
seen. What is done to a world while cursors are dispatched upholds both registries, and so does pruning
of keys from before the instants that are to be kept. The totals of a kind of event change only as an
event of this kind is counted.
-/

namespace MailCampaign

/-- The total of a kind of event. -/
def Totals.ofKind (t : Totals) : EngagementKind → UInt64
  | .sent => t.sent
  | .opened => t.opens
  | .clicked => t.clicks
  | .replied => t.replies
  | .bounced => t.bounces
  | .unsubscribed => t.unsubscribes

theorem Totals.ofKind_count (t : Totals) (kind counted : EngagementKind) (first : Bool) :
    (t.count counted first).ofKind kind = t.ofKind kind + if kind = counted then 1 else 0 := by
  cases kind <;> cases counted <;> simp [ofKind, count]

theorem Totals.ofKind_finish (t : Totals) (state : CursorState) (kind : EngagementKind) :
    (t.finish state).ofKind kind = t.ofKind kind := by
  cases state <;> cases kind <;> rfl

/-- Keys that are taken in from outside are settled. -/
theorem SeenKeys.settled_of_restore {s : SeenKeys} {keys : List (String × Instant)} {key : String}
    {a : Admission} (h : (s.restore keys).table.find? key = some a) :
    a.settled = true ∨ s.table.find? key = some a := by
  induction keys generalizing s with
  | nil => exact .inr h
  | cons entry rest ih =>
    have hrest : ((⟨s.table.insert entry.1 ⟨entry.2, true⟩⟩ : SeenKeys).restore rest).table.find? key =
        some a := h
    rcases ih hrest with hsettled | hinserted
    · exact .inl hsettled
    · rw [Table.find?_insert] at hinserted
      split at hinserted
      · exact .inl (by rw [← Option.some.inj hinserted])
      · exact .inr hinserted

namespace World

variable {w v : World} {key : String} {own pending : String → Prop} {kept : Instant → Prop}
  {e : Engagement} {mails interrupted : Prop} {now : Instant}

/-- A key was let in at an instant. -/
def Admitted (w : World) (key : String) (t : Instant) : Prop :=
  (w.seen.table.find? key).map Admission.time = some t

/-- All keys that were let in are settled, but for some. -/
def SettledBut (w : World) (pending : String → Prop) : Prop :=
  ∀ key a, w.seen.table.find? key = some a → pending key ∨ a.settled = true

/-- All keys that were let in are settled. -/
def AllSettled (w : World) : Prop :=
  ∀ key a, w.seen.table.find? key = some a → a.settled = true

theorem allSettled_iff : w.AllSettled ↔ w.SettledBut fun _ => False :=
  ⟨fun h key a ha => .inr (h key a ha), fun h key a ha => (h key a ha).resolve_left id⟩

/-- The registries have a key at the same instant, or neither of them has it. -/
def AgreesOn (w : World) (key : String) : Prop :=
  w.statistics.applied.find? key = (w.seen.table.find? key).map Admission.time

/-- The registries agree on all keys but some and those of mails that were sent. -/
def Agreed (w : World) (own : String → Prop) : Prop :=
  ∀ key, own key ∨ (∃ id, w.HasSent id ∧ key = sentKey id) ∨ w.AgreesOn key

/-- A later world that remembers the keys let in at some instants, and where the registries agree if
they did. -/
structure Retains (own : String → Prop) (kept : Instant → Prop) (w v : World) : Prop where
  remembers : ∀ key t, kept t → w.Admitted key t → v.Admitted key t
  agreed : w.Agreed own → v.Agreed own

/-- A later world that also leaves no keys unsettled. -/
structure Upholds (own : String → Prop) (kept : Instant → Prop) (w v : World) : Prop
    extends Retains own kept w v where
  settled : ∀ pending, w.SettledBut pending → v.SettledBut pending

instance : IsPreorder World (Retains own kept) where
  refl := fun _ => ⟨fun _ _ _ h => h, fun h => h⟩
  trans := fun _ _ _ h h' => ⟨fun key t ht hw => h'.remembers key t ht (h.remembers key t ht hw),
    fun hw => h'.agreed (h.agreed hw)⟩

instance : IsPreorder World (Upholds own kept) where
  refl := fun w => ⟨refl_of (Retains own kept) w, fun _ h => h⟩
  trans := fun _ _ _ h h' => ⟨trans_of (Retains own kept) h.toRetains h'.toRetains,
    fun pending hw => h'.settled pending (h.settled pending hw)⟩

/-- The registries agree on a key if its entries come from entries that agreed. -/
theorem Agreed.transfer (h : w.Agreed own) (hsent : ∀ id, w.HasSent id → v.HasSent id)
    (hkey : ∀ key, w.AgreesOn key → (∃ id, v.HasSent id ∧ key = sentKey id) ∨ v.AgreesOn key) :
    v.Agreed own := fun key => (h key).imp_right fun h =>
  h.elim (fun ⟨id, hid, hk⟩ => .inl ⟨id, hsent id hid, hk⟩) (hkey key)

/-- What leaves both registries as they are upholds them. -/
theorem upholds_of_eq (hseen : v.seen = w.seen) (happlied : v.statistics.applied = w.statistics.applied)
    (hsent : ∀ id, w.HasSent id → v.HasSent id) : w.Upholds own kept v where
  remembers := by
    intro key t _ h
    rw [Admitted, hseen]
    exact h
  settled := by
    intro pending h
    rw [SettledBut, hseen]
    exact h
  agreed := by
    refine fun h => h.transfer hsent fun key h => .inr ?_
    rw [AgreesOn, hseen, happlied]
    exact h

/-- A later world with the same registries and mails. -/
structure SameKeys (w v : World) : Prop where
  seen : v.seen = w.seen
  applied : v.statistics.applied = w.statistics.applied
  submissions : v.submissions = w.submissions

instance : IsPreorder World SameKeys where
  refl := fun _ => ⟨rfl, rfl, rfl⟩
  trans := fun _ _ _ h h' => ⟨h'.seen.trans h.seen, h'.applied.trans h.applied,
    h'.submissions.trans h.submissions⟩

theorem SameKeys.upholds (h : w.SameKeys v) : w.Upholds own kept v :=
  upholds_of_eq h.seen h.applied fun _ hid => hid.of_submissions h.submissions

/-! ## Counting -/

theorem statistics_count (w : World) (e : Engagement) (only : Option CursorKey)
    (received : Instant) : (w.count e only received).statistics =
      (w.statistics.count e received).getD w.statistics := by
  unfold count countTotals
  cases w.statistics.count e received with
  | none => rfl
  | some s => exact (countOnCursors_frame e _ _).1

/-- A key is counted once, with the time of its first receipt. -/
theorem applied_count (w : World) (e : Engagement) (only : Option CursorKey) (received : Instant)
    (key : String) :
    (w.count e only received).statistics.applied.find? key =
      if key = e.key then some ((w.statistics.applied.find? e.key).getD received)
      else w.statistics.applied.find? key := by
  rw [statistics_count]
  unfold Statistics.count
  cases happlied : w.statistics.applied.find? e.key with
  | some t =>
    dsimp only [Option.getD_none]
    split
    · next hk => rw [hk, happlied, Option.getD_some]
    · rfl
  | none =>
    dsimp only [Option.getD_some]
    exact Table.find?_insert _ _ _ _

/-- Counting an event adds one to the total of its kind in its campaign, unless its key was counted
before. -/
theorem ofKind_count (w : World) (e : Engagement) (only : Option CursorKey) (received : Instant)
    (kind : EngagementKind) (campaign : Uuid) :
    ((w.count e only received).statistics.of campaign).ofKind kind =
      (w.statistics.of campaign).ofKind kind +
        if w.statistics.applied.find? e.key = none ∧ campaign = e.campaignId ∧ kind = e.kind
        then 1 else 0 := by
  rw [statistics_count]
  cases hs : w.statistics.count e received with
  | none =>
    obtain ⟨t, ht⟩ := Statistics.count_eq_none_iff.1 hs
    simp [ht]
  | some s =>
    have hnew : w.statistics.applied.find? e.key = none := by
      by_contra hsome
      obtain ⟨t, ht⟩ := Option.ne_none_iff_exists'.1 hsome
      rw [Statistics.count_eq_none_iff.2 ⟨t, ht⟩] at hs
      cases hs
    rw [Option.getD_some, Statistics.of_count hs]
    by_cases hc : campaign = e.campaignId
    · simp [hc, hnew, Totals.ofKind_count]
    · simp [hc]

theorem HasSent.count {id : String} (h : w.HasSent id) (e : Engagement) (only : Option CursorKey)
    (received : Instant) : (w.count e only received).HasSent id :=
  h.of_submissions (sameMails_count w e only received)

/-- Counting a mail touches no key but that of the mail. -/
theorem upholds_mailed {id : String} (c : Cursor) (now : Instant) (hid : w.HasSent id) :
    w.Upholds own kept (w.count (Change.sentEvent c id now) (some c.key) now) where
  remembers := by
    intro key t _ h
    rw [Admitted, seen_count]
    exact h
  settled := by
    intro pending h
    rw [SettledBut, seen_count]
    exact h
  agreed := by
    refine fun h => h.transfer (fun _ hid => hid.count _ _ now) fun key h => ?_
    by_cases hkey : key = sentKey id
    · exact .inl ⟨id, hid.count _ _ now, hkey⟩
    · refine .inr ?_
      rw [AgreesOn, seen_count, applied_count]
      exact (if_neg hkey).trans h

theorem upholds_countOutcome (w : World) (campaign : Uuid) (state : CursorState) :
    w.Upholds own kept (w.countOutcome campaign state) := by
  unfold countOutcome
  dsimp only
  split <;> exact upholds_of_eq rfl rfl fun _ h => h

theorem Deed.upholds_uninterrupted (h : w.Deed mails False v) : w.Upholds own kept v := by
  cases h with
  | moved => exact upholds_of_eq rfl rfl fun _ h => h
  | ended campaign state => exact upholds_countOutcome w campaign state
  | told => exact upholds_of_eq rfl rfl fun _ h => h
  | mailed c now _ hid => exact upholds_mailed c now hid
  | status _ _ h => exact h.elim
  | unsubscribed _ h => exact h.elim

/-! ## Letting in, settling and pruning -/

/-- Letting a key in and counting its event registers it twice. -/
theorem retains_counted (own : String → Prop) (kept : Instant → Prop) {seen : SeenKeys}
    (hseen : w.seen.receive e.key now = some seen) :
    w.Retains own kept (({ w with seen } : World).count e none now) ∧
    (({ w with seen } : World).count e none now).Admitted e.key now ∧
    ∀ pending, w.SettledBut pending →
      (({ w with seen } : World).count e none now).SettledBut fun k => k = e.key ∨ pending k := by
  have hfresh := SeenKeys.fresh_of_receive hseen
  have hfind : ∀ key, (({ w with seen } : World).count e none now).seen.table.find? key =
      if key = e.key then some ⟨now, false⟩ else w.seen.table.find? key := by
    intro key
    rw [seen_count]
    exact SeenKeys.find?_receive hseen key
  refine ⟨⟨fun key t _ h => ?_, fun h => ?_⟩, ?_, fun pending h key a ha => ?_⟩
  · have hother : key ≠ e.key := by
      rintro rfl
      rw [Admitted, hfresh] at h
      cases h
    rw [Admitted, hfind, if_neg hother]
    exact h
  · refine h.transfer (fun id hid => HasSent.count (w := { w with seen }) hid e none now)
      fun key h => .inr ?_
    rw [AgreesOn, hfind, applied_count]
    -- As the key was not seen, it was not counted either, so both registries take it in at this instant.
    by_cases hkey : key = e.key
    · have hnone : w.statistics.applied.find? e.key = none := by
        rw [AgreesOn, hkey, hfresh] at h
        exact h
      rw [if_pos hkey, if_pos hkey]
      exact congrArg (fun o => some (o.getD now)) hnone
    · rw [if_neg hkey, if_neg hkey]
      exact h
  · rw [Admitted, hfind, if_pos rfl, Option.map_some]
  · rw [hfind] at ha
    split at ha
    · next hk => exact .inl (.inl hk)
    · exact (h key a ha).imp_left .inr

/-- Settling a key changes the seen keys alone. -/
theorem settle_frame (w : World) (key : String) :
    ((Change.settle key).on w).2.seen = (w.seen.settle key).1 ∧
      ((Change.settle key).on w).2.statistics = w.statistics ∧
      ((Change.settle key).on w).2.submissions = w.submissions := by
  unfold Change.settle
  rw [Change.on_bind_ok (Change.on_get w)]
  rcases w.seen.settle key with ⟨seen, _ | time⟩ <;> exact ⟨rfl, rfl, rfl⟩

/-- Settling a key leaves its instant. -/
theorem retains_settle (own : String → Prop) (kept : Instant → Prop) (w : World) (key : String) :
    w.Retains own kept ((Change.settle key).on w).2 ∧
    ∀ pending, (w.SettledBut fun k => k = key ∨ pending k) →
      ((Change.settle key).on w).2.SettledBut pending := by
  obtain ⟨hseen, hstatistics, hsubmissions⟩ := w.settle_frame key
  have htime : ∀ k, (((Change.settle key).on w).2.seen.table.find? k).map Admission.time =
      (w.seen.table.find? k).map Admission.time := by
    intro k
    rw [hseen, SeenKeys.find?_settle]
    split
    · next hk =>
      rw [hk, Option.map_map]
      rfl
    · rfl
  refine ⟨⟨fun k t _ h => (htime k).trans h, fun h => ?_⟩, fun pending h k a ha => ?_⟩
  · refine h.transfer (fun _ hid => hid.of_submissions hsubmissions) fun k h => .inr ?_
    rw [AgreesOn, htime, hstatistics]
    exact h
  · rw [hseen, SeenKeys.find?_settle] at ha
    split at ha
    · obtain ⟨b, -, rfl⟩ := Option.map_eq_some_iff.1 ha
      exact .inr rfl
    · next hk => exact (h k a ha).imp_left fun h => h.resolve_left hk

/-- Pruning keeps to one cutoff, if there is one. -/
theorem on_prune_cases (w : World) (ttlHours : UInt64) (now : Instant) :
    ((Change.prune ttlHours now).on w).2 = w ∨ ∃ ttl cutoff,
      Span.ofHours? ttlHours.toInt64.toInt = some ttl ∧ now.subtract? ttl = some cutoff ∧
      ((Change.prune ttlHours now).on w).2 =
        { w with seen := w.seen.prune cutoff, statistics := w.statistics.prune cutoff } := by
  unfold Change.prune
  cases Span.ofHours? ttlHours.toInt64.toInt with
  | none => exact .inl rfl
  | some ttl =>
    rw [Change.on_bind_ok (Change.on_need_some _ _ _)]
    cases hcutoff : now.subtract? ttl with
    | none => exact .inl rfl
    | some cutoff => exact .inr ⟨ttl, cutoff, rfl, hcutoff, rfl⟩

/-- Pruning takes the same keys out of both registries, and none from after the cutoff. -/
theorem upholds_pruned {cutoff : Instant} (hkept : ∀ t, kept t → cutoff ≤ t) :
    w.Upholds own kept
      { w with seen := w.seen.prune cutoff, statistics := w.statistics.prune cutoff } where
  remembers := by
    intro key t ht h
    obtain ⟨a, ha, rfl⟩ := Option.map_eq_some_iff.1 h
    rw [Admitted, SeenKeys.find?_prune, ha, Option.filter_some, if_pos (decide_eq_true (hkept _ ht)),
      Option.map_some]
  settled := by
    intro pending h key a ha
    rw [SeenKeys.find?_prune] at ha
    exact h key a (Option.filter_eq_some_iff.1 ha).1
  agreed := by
    refine fun h => h.transfer (fun _ hid => hid) fun key h => .inr ?_
    rw [AgreesOn, SeenKeys.find?_prune]
    refine (Table.find?_keepIf _ _ _).trans ?_
    rw [h]
    cases w.seen.table.find? key with
    | none => rfl
    | some a =>
      rw [Option.map_some, Option.filter_some, Option.filter_some]
      split <;> rfl

/-! ## Restoring -/

theorem allSettled_empty (n : Nat) : (empty n).AllSettled := fun _ _ h => by cases h

theorem AllSettled.restore (h : w.AllSettled) (snap : Snapshot) : (w.restore snap).1.AllSettled :=
  fun key a ha => (SeenKeys.settled_of_restore ha).elim id (h key a)

theorem AllSettled.replay (h : w.AllSettled) (entry : Entry) : (w.replay entry).AllSettled := by
  cases entry with
  | seenKey k time => exact fun key a ha => (SeenKeys.settled_of_restore ha).elim id (h key a)
  | cursor c =>
    unfold World.replay
    dsimp only
    split <;> exact h
  | _ => exact h

theorem AllSettled.replayAll (h : w.AllSettled) (l : List Entry) : (w.replayAll l).AllSettled := by
  induction l generalizing w with
  | nil => exact h
  | cons entry rest ih => exact ih (h.replay entry)

/-- Where all keys are settled, the slots of keys say what the registries have. -/
theorem AllSettled.at?_eq (h : w.AllSettled) (key : String) :
    w.at? (.settled key) = ((w.seen.table.find? key).map Admission.time).map Datum.time := by
  rw [at?]
  cases ha : w.seen.table.find? key with
  | none => rfl
  | some a =>
    rw [Option.filter_some, if_pos (h key a ha)]
    rfl

/-- Worlds with the same slots, in which all keys are settled, have the same registries. -/
theorem retains_of_slots (hw : w.AllSettled) (hv : v.AllSettled)
    (hslots : ∀ slot, v.at? slot = w.at? slot) (hown : ∀ id, w.HasSent id → own (sentKey id)) :
    w.Retains own kept v := by
  have htime : ∀ key, (v.seen.table.find? key).map Admission.time =
      (w.seen.table.find? key).map Admission.time := by
    intro key
    have hslot := hslots (.settled key)
    rw [hv.at?_eq, hw.at?_eq] at hslot
    exact Option.map_injective (fun _ _ => Datum.time.inj) hslot
  refine ⟨fun key t _ h => (htime key).trans h, fun h key => ?_⟩
  rcases h key with hkey | ⟨id, hid, rfl⟩ | hkey
  · exact .inl hkey
  · exact .inl (hown id hid)
  · refine .inr (.inr ?_)
    rw [AgreesOn, htime, ← hkey]
    exact Option.map_injective (fun _ _ => Datum.time.inj) (hslots (.applied key))

/-! ## Totals of a kind -/

/-- A later world with the same totals of a kind of event, where counted keys stay counted. -/
structure Steady (kind : EngagementKind) (w v : World) : Prop where
  number : ∀ campaign,
    (v.statistics.of campaign).ofKind kind = (w.statistics.of campaign).ofKind kind
  applied : ∀ key t, w.statistics.applied.find? key = some t →
    v.statistics.applied.find? key = some t

variable {kind : EngagementKind}

instance : IsPreorder World (Steady kind) where
  refl := fun _ => ⟨fun _ => rfl, fun _ _ h => h⟩
  trans := fun _ _ _ h h' => ⟨fun campaign => (h'.number campaign).trans (h.number campaign),
    fun key t hw => h'.applied key t (h.applied key t hw)⟩

theorem steady_of_eq (h : v.statistics = w.statistics) : w.Steady kind v :=
  ⟨fun _ => by rw [h], fun _ _ hw => by rw [h, hw]⟩

theorem steady_count (hkind : kind ≠ e.kind) (w : World) (only : Option CursorKey)
    (received : Instant) : w.Steady kind (w.count e only received) where
  number := by
    intro campaign
    rw [ofKind_count, if_neg fun h => hkind h.2.2]
    exact UInt64.add_zero _
  applied := by
    intro key t h
    rw [applied_count]
    split
    · next hk => rw [← hk, h, Option.getD_some]
    · exact h

theorem steady_countOutcome (w : World) (campaign : Uuid) (state : CursorState) :
    w.Steady kind (w.countOutcome campaign state) := by
  have hcounted : w.Steady kind
      { w with statistics := w.statistics.countOutcome campaign state } := by
    refine ⟨fun campaign' => ?_, fun _ _ h => h⟩
    by_cases hc : campaign' = campaign
    · rw [hc, of_finish, Totals.ofKind_finish]
    · simp [Statistics.countOutcome, Statistics.of, Table.find?_insert_of_ne, hc]
  unfold countOutcome
  dsimp only
  split <;> exact ⟨hcounted.number, hcounted.applied⟩

theorem Deed.steady_uninterrupted (h : w.Deed mails False v) (hm : kind = .sent → ¬ mails) :
    w.Steady kind v := by
  cases h with
  | moved => exact steady_of_eq rfl
  | ended campaign state => exact steady_countOutcome w campaign state
  | told => exact steady_of_eq rfl
  | mailed c now hmails => exact steady_count (fun he => hm he hmails) w _ now
  | status _ _ h => exact h.elim
  | unsubscribed _ h => exact h.elim

/-- Mails that are sent and leads that unsubscribe change the totals of their kind alone. -/
theorem Deed.steady (h : w.Deed mails interrupted v) (hm : kind = .sent → ¬ mails)
    (hi : kind = .unsubscribed → ¬ interrupted) : w.Steady kind v := by
  obtain hinside | ⟨campaign, status, rfl⟩ | ⟨e, now, hinterrupted, he, rfl⟩ := h.inside_or
  · exact hinside.steady_uninterrupted hm
  · exact steady_of_eq rfl
  · have hkind : kind ≠ e.kind := fun hk => hi (hk.trans he) hinterrupted
    refine Change.Keeps.ingestHalting (R := Steady kind) (fun u => ?_)
      (.apply fun u => steady_count hkind u none now) (fun key u => ?_)
      (fun u => steady_of_eq (u.settle_frame e.key).2.1) w
    · rw [Change.receive, Change.on_bind_ok (Change.on_get u)]
      cases u.seen.receive e.key now <;> exact steady_of_eq rfl
    · have hdeeds : u.Deeds False False ((Change.cancel key ("lead " ++ e.kind.name) now).on u).2 :=
        Change.cancel_deeds u
      exact hdeeds.keeps fun _ _ h => h.steady_uninterrupted fun _ => not_false

/-- A world in which an event is counted that was not: its key is, with the time of its receipt, and
the total of its kind in its campaign is one more. -/
structure CountedOnce (e : Engagement) (received : Instant) (w v : World) : Prop where
  before : w.statistics.applied.find? e.key = none
  after : v.statistics.applied.find? e.key = some received
  number : ∀ campaign, (v.statistics.of campaign).ofKind e.kind =
    (w.statistics.of campaign).ofKind e.kind + if campaign = e.campaignId then 1 else 0

theorem countedOnce_count (hnew : w.statistics.applied.find? e.key = none)
    (only : Option CursorKey) (received : Instant) :
    w.CountedOnce e received (w.count e only received) where
  before := hnew
  after := by rw [applied_count, if_pos rfl, hnew, Option.getD_none]
  number := fun campaign => by rw [ofKind_count]; simp [hnew]

theorem CountedOnce.of_steady {u : World} {received : Instant} (h : w.CountedOnce e received v)
    (hu : v.Steady e.kind u) : w.CountedOnce e received u :=
  ⟨h.before, hu.applied _ _ h.after, fun campaign => (hu.number campaign).trans (h.number campaign)⟩

end World

end MailCampaign
