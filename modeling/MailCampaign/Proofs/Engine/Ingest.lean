import MailCampaign.Proofs.Engine.Deed
import MailCampaign.Proofs.Engine.Posted
import MailCampaign.Proofs.World.Engaged

/-!
# Taking in an event

Every event is taken in by the same steps: its key is let in, it is counted, it goes on its way, and
its key is settled. An event whose key was let in before is turned away at the first of them. On its way
an event changes no engagement, as long as nothing interrupts a mailer.
-/

namespace MailCampaign

variable {σ α β : Type}

theorem Change.on_settle {w : World} {key : String} {a : Admission}
    (ha : w.seen.table.find? key = some a) :
    (settle key).on w = (.ok ⟨⟩, World.journal { w with seen := (w.seen.settle key).1 }
      (.seenKey key a.time)) := by
  have hsettle : w.seen.settle key = ((w.seen.settle key).1, some a.time) := by
    simp [SeenKeys.settle, ha]
  unfold settle
  rw [on_bind_ok (on_get w), hsettle]
  rfl

namespace Engine

variable {svc : Services σ} {e : Engagement} {now : Instant} {s : Session σ} {seen : SeenKeys}

/-- Sends an event that was counted on its way: its lead is stopped, or the event is routed. -/
def onward (svc : Services σ) (e : Engagement) (now : Instant) : Engine σ IngestReport :=
  if e.haltsLead then Change.haltLead e now else route svc e now

/-- Sends an event that was counted on its way and settles its key. -/
def process (svc : Services σ) (e : Engagement) (now : Instant) : Engine σ IngestReport := do
  let report ← onward svc e now
  Change.settle e.key
  return report

theorem lift_bind (c : Change α) (f : α → Change β) :
    (liftM (c >>= f) : Engine σ β) = liftM c >>= fun a => liftM (f a) := by
  funext s
  show (liftM (c >>= f) : Engine σ β).on s = (liftM c >>= fun a => liftM (f a) : Engine σ β).on s
  rw [on_lift, Change.on_bind, on_bind, on_lift]
  rcases c.on s.world with ⟨x | a, w⟩ <;> rfl

/-- An event that stops its lead is taken in like any other. -/
theorem ingest_eq (svc : Services σ) (e : Engagement) (now : Instant) :
    ingest svc e now = Change.ingestWith (onward svc e now) e now := by
  unfold ingest onward
  split
  · unfold Change.ingestHalting Change.ingestWith
    rw [lift_bind]
    refine congrArg _ (funext fun first => ?_)
    cases first with
    | false => rfl
    | true =>
      rw [if_pos rfl, if_pos rfl, lift_bind]
      refine congrArg _ (funext fun _ => ?_)
      rw [lift_bind]
      refine congrArg _ (funext fun report => ?_)
      rw [lift_bind]
      rfl
  · rfl

/-- An event whose key was let in before is turned away. -/
theorem on_ingest_seen {a : Admission} (ha : s.world.seen.table.find? e.key = some a)
    (svc : Services σ) (now : Instant) :
    (ingest svc e now).on s = (.ok { key := e.key, duplicate := true }, s) := by
  have hreceive : (liftM (Change.receive e now) : Engine σ Bool).on s = (.ok false, s) := by
    rw [on_lift, Change.on_receive_seen ha]
  rw [ingest_eq, Change.ingestWith]
  exact on_bind_ok hreceive

/-- An event whose key is let in is counted and goes on its way. -/
theorem on_ingest_new (hseen : s.world.seen.receive e.key now = some seen) (svc : Services σ) :
    (ingest svc e now).on s = (process svc e now).on
      { s with world := ({ s.world with seen } : World).count e none now } := by
  have hreceive : (liftM (Change.receive e now) : Engine σ Bool).on s =
      (.ok true, { s with world := { s.world with seen } }) := by
    rw [on_lift, Change.receive, Change.on_bind_ok (Change.on_get _), hseen]
    rfl
  rw [ingest_eq, Change.ingestWith]
  exact on_bind_ok hreceive

/-- What goes wrong on the way of an event keeps its key from being settled. -/
theorem on_process (svc : Services σ) (e : Engagement) (now : Instant) (s : Session σ) :
    (process svc e now).on s = match (onward svc e now).on s with
      | (.ok report, t) => (.ok report, { t with world := ((Change.settle e.key).on t.world).2 })
      | (.error x, t) => (.error x, t) := by
  have hsettle : ∀ t : Session σ, (liftM (Change.settle e.key) : Engine σ Unit).on t =
      (.ok ⟨⟩, { t with world := ((Change.settle e.key).on t.world).2 }) := by
    intro t
    rw [on_lift]
    refine Prod.ext ?_ rfl
    unfold Change.settle
    rw [Change.on_bind_ok (Change.on_get _)]
    rcases t.world.seen.settle e.key with ⟨seen, _ | time⟩ <;> rfl
  unfold process
  rw [on_bind]
  rcases (onward svc e now).on s with ⟨x | report, t⟩
  · rfl
  · exact on_bind_ok (hsettle t)

/-! ## Without interruptions -/

theorem onward_deeds {mails interrupted : Prop} (hm : mails)
    (hq : svc.mailer.Quiet ∨ interrupted) :
    (onward svc e now).Keeps (Session.Deeds svc mails interrupted) := by
  unfold onward
  split
  · exact deeds_lift Change.haltLead_deeds
  · exact route_deeds hm hq e now

end Engine

/-- Deeds without interruptions leave the engagement level. -/
theorem Session.Deeds.level {svc : Services σ} {mails : Prop} {s t : Session σ}
    (h : s.Deeds svc mails False t) : s.world.Level t.world :=
  h.keeps (fun _ _ h => h.level) fun _ _ => World.level_emit fun _ h => by cases h

namespace Engine

variable {svc : Services σ} {e : Engagement} {now : Instant} {s : Session σ} {seen : SeenKeys}

/-- What becomes of a world as an event goes on its way: the engagement stays level, all that is
written affirms it, and at the end the key may be settled. -/
structure Processed (e : Engagement) (now : Instant) (w v : World) : Prop where
  same : w.SameEngagement v
  entries : ∃ more last, journaled v.trace = journaled w.trace ++ (more ++ last) ∧
    (∀ x ∈ more, w.Affirms x) ∧ (last = [] ∨ last = [.seenKey e.key now])

theorem process_processed (hq : svc.mailer.Quiet) {settled : Bool}
    (hkey : s.world.seen.table.find? e.key = some ⟨now, settled⟩) :
    Processed e now s.world ((process svc e now).on s).2.world := by
  have hdeeds : s.Deeds svc True False ((onward svc e now).on s).2 :=
    onward_deeds trivial (.inl hq) s
  have hlevel := hdeeds.level
  rw [on_process]
  rcases hr : (onward svc e now).on s with ⟨x | report, t⟩ <;> rw [hr] at hlevel <;>
    obtain ⟨more, hmore, haffirm⟩ := hlevel.entries
  · exact ⟨hlevel.toSameEngagement, more, [], by rw [List.append_nil, hmore], haffirm,
      .inl rfl⟩
  · have hlet : t.world.seen.table.find? e.key = some ⟨now, settled⟩ := by
      rw [hlevel.seen, hkey]
    dsimp only
    rw [Change.on_settle hlet]
    refine ⟨⟨hlevel.campaigns, hlevel.cursors⟩, more, [.seenKey e.key now], ?_, haffirm, .inr rfl⟩
    rw [← List.append_assoc, ← hmore]
    exact World.journaled_journal _ _

/-- What becomes of a world as an event of a new key is taken in. Unless the key was counted before,
the engagement is one event further, and the totals with the key are written first. -/
structure Ingested (e : Engagement) (now : Instant) (w v : World) : Prop where
  again : ∀ t, w.statistics.applied.find? e.key = some t → w.SameEngagement v
  first : w.statistics.applied.find? e.key = none → w.Engages e v
  entries : ∃ l last, journaled v.trace = journaled w.trace ++ (l ++ last) ∧
    (∀ x ∈ l, v.Affirms x) ∧ (last = [] ∨ last = [.seenKey e.key now]) ∧
    (w.statistics.applied.find? e.key = none → ∃ totals unique rest,
      l = .stats e.campaignId totals (some (e.key, now)) unique :: rest)

theorem ingest_ingested (hq : svc.mailer.Quiet) (hw : s.world.cursors.Indexed)
    (hfresh : s.world.seen.table.find? e.key = none) :
    Ingested e now s.world ((ingest svc e now).on s).2.world := by
  obtain ⟨seen, hseen⟩ := SeenKeys.receive_of_fresh hfresh now
  let w : World := { s.world with seen }
  let v := w.count e none now
  have hlet : v.seen.table.find? e.key = some ⟨now, false⟩ := by
    rw [World.seen_count]
    exact (SeenKeys.find?_receive hseen e.key).trans (if_pos rfl)
  have hprocessed : Processed e now v ((process svc e now).on { s with world := v }).2.world :=
    process_processed hq (s := { s with world := v }) hlet
  obtain ⟨hsame, more, last, htrace, haffirm, hlast⟩ := hprocessed
  rw [on_ingest_new hseen]
  cases happlied : s.world.statistics.applied.find? e.key with
  | some t =>
    have hcount : v = w := World.count_again (w := w) happlied none
    have hlevel : s.world.SameEngagement v := hcount ▸ ⟨fun _ => rfl, fun _ => rfl⟩
    have hjournal : journaled v.trace = journaled s.world.trace := by rw [hcount]
    refine ⟨fun _ _ => hlevel.trans hsame, fun h => ?_, more, last, ?_, ?_, hlast, fun h => ?_⟩
    · rw [happlied] at h
      cases h
    · rw [← hjournal]
      exact htrace
    · exact fun x hx => (haffirm x hx).of_same hsame
    · rw [happlied] at h
      cases h
  | none =>
    have hcounted : w.Counted e now v := World.counted_count hw.toEnlisted happlied
    have hengages : s.world.Engages e v := ⟨hcounted.engages.campaigns, hcounted.engages.cursors⟩
    obtain ⟨unique, rest, hstats, hcursors⟩ := hcounted.affirms
    let totals := v.statistics.of e.campaignId
    refine ⟨fun t h => ?_, fun _ => hengages.of_same hsame,
      .stats e.campaignId totals (some (e.key, now)) unique :: (rest ++ more), last, ?_,
      fun x hx => ?_, hlast, fun _ => ⟨totals, unique, rest ++ more, rfl⟩⟩
    · rw [happlied] at h
      cases h
    · refine htrace.trans ?_
      rw [hstats, List.append_assoc, ← List.append_assoc _ more last]
      rfl
    · rw [← List.cons_append] at hx
      exact (List.mem_append.1 hx).elim (fun hx => (hcursors x hx).of_same hsame)
        fun hx => (haffirm x hx).of_same hsame

end Engine

end MailCampaign
