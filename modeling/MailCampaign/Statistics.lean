import MailCampaign.Campaign
import MailCampaign.Cursor.Basic
import MailCampaign.Engagement

/-!
# Statistics

The totals of each campaign. An event is counted once: its key is remembered until it is pruned. The
first event of a kind by a lead in a campaign is remembered for good.
-/

namespace MailCampaign

/-! ## Totals -/

namespace Totals

/-- One more engagement; `first` says whether it is the lead's first of its kind. -/
def count (t : Totals) (kind : EngagementKind) (first : Bool) : Totals :=
  match kind with
  | .sent => { t with sent := t.sent + 1 }
  | .opened =>
    { t with opens := t.opens + 1, uniqueOpens := t.uniqueOpens + (if first then 1 else 0) }
  | .clicked =>
    { t with clicks := t.clicks + 1, uniqueClicks := t.uniqueClicks + (if first then 1 else 0) }
  | .replied => { t with replies := t.replies + 1 }
  | .bounced => { t with bounces := t.bounces + 1 }
  | .unsubscribed => { t with unsubscribes := t.unsubscribes + 1 }

/-- One more enrollment. -/
def enroll (t : Totals) : Totals := { t with enrolled := t.enrolled + 1 }

/-- One more cursor that ended in a state. -/
def finish (t : Totals) : CursorState → Totals
  | .goalReached => { t with goalReached := t.goalReached + 1 }
  | .completed => { t with completed := t.completed + 1 }
  | .failed => { t with failed := t.failed + 1 }
  | .canceled => { t with canceled := t.canceled + 1 }
  | _ => t

end Totals

/-! ## Totals of campaigns -/

/-- A lead of a campaign and a kind of engagement. -/
structure FirstOfKind where
  campaign : Uuid
  leadId : String
  kind : EngagementKind
deriving DecidableEq

/-- The totals of campaigns and what was counted in them. -/
structure Statistics where
  totals : Table Uuid Totals
  /-- The keys of counted events, with the time of their receipt. -/
  applied : Table String Instant
  /-- What occurred at least once. -/
  firsts : List FirstOfKind

namespace Statistics

/-- Nothing counted. -/
def empty : Statistics := ⟨Table.empty, Table.empty, []⟩

/-- The totals of a campaign. -/
def of (s : Statistics) (campaign : Uuid) : Totals := (s.totals.find? campaign).getD {}

/-- Remembers a first occurrence once. -/
def remember (firsts : List FirstOfKind) (f : FirstOfKind) : List FirstOfKind :=
  if f ∈ firsts then firsts else firsts ++ [f]

/-- The lead and the kind of an event in its campaign. -/
def kindOf (e : Engagement) : FirstOfKind := ⟨e.campaignId, e.leadId, e.kind⟩

/-- Whether an event is the first of its kind. -/
def isFirst (s : Statistics) (e : Engagement) : Bool := !s.firsts.contains (kindOf e)

/-- Counts an event received at an instant, unless its key was counted before. -/
def count (s : Statistics) (e : Engagement) (received : Instant) : Option Statistics :=
  match s.applied.find? e.key with
  | some _ => none
  | none => some {
      totals := s.totals.insert e.campaignId ((s.of e.campaignId).count e.kind (s.isFirst e))
      applied := s.applied.insert e.key received
      firsts := remember s.firsts (kindOf e) }

theorem count_eq_none_iff {s : Statistics} {e : Engagement} {received : Instant} :
    s.count e received = none ↔ ∃ t, s.applied.find? e.key = some t := by
  unfold count
  cases s.applied.find? e.key <;> simp

theorem of_count {s t : Statistics} {e : Engagement} {received : Instant}
    (h : s.count e received = some t) (campaign : Uuid) :
    t.of campaign =
      if campaign = e.campaignId then (s.of campaign).count e.kind (s.isFirst e)
      else s.of campaign := by
  unfold count at h
  cases hf : s.applied.find? e.key with
  | some _ => simp [hf] at h
  | none =>
    simp only [hf, Option.some.injEq] at h
    subst h
    by_cases hc : campaign = e.campaignId
    · subst hc
      simp [of]
    · simp [of, Table.find?_insert_of_ne, hc]

theorem mem_remember {firsts : List FirstOfKind} {f g : FirstOfKind} :
    g ∈ remember firsts f ↔ g ∈ firsts ∨ g = f := by
  unfold remember
  split
  · next h => exact ⟨.inl, fun hg => hg.elim id fun e => e ▸ h⟩
  · simp

/-- Counts an enrollment. -/
def countEnrolled (s : Statistics) (campaign : Uuid) : Statistics :=
  { s with totals := s.totals.insert campaign (s.of campaign).enroll }

/-- Counts a cursor that ended in a state. -/
def countOutcome (s : Statistics) (campaign : Uuid) (state : CursorState) : Statistics :=
  { s with totals := s.totals.insert campaign ((s.of campaign).finish state) }

/-- Forgets the keys received before an instant. -/
def prune (s : Statistics) (cutoff : Instant) : Statistics :=
  { s with applied := s.applied.keepIf fun _ t => cutoff ≤ t }

/-- Takes in written totals with what was counted in them. -/
def replay (s : Statistics) (campaign : Uuid) (totals : Totals)
    (applied : Option (String × Instant)) (unique : Option (String × EngagementKind)) :
    Statistics where
  totals := s.totals.insert campaign totals
  applied := s.applied.insertAll applied.toList
  firsts := match unique with
    | some (leadId, kind) => remember s.firsts ⟨campaign, leadId, kind⟩
    | none => s.firsts

end Statistics

/-- What is saved of the statistics. -/
structure StatisticsImage where
  campaigns : List (Uuid × Totals)
  applied : List (String × Instant)
  firsts : List FirstOfKind

namespace Statistics

/-- What is to be saved. -/
def image (s : Statistics) : StatisticsImage := ⟨s.totals.toList, s.applied.toList, s.firsts⟩

/-- Takes in what was saved. -/
def restore (s : Statistics) (i : StatisticsImage) : Statistics where
  totals := s.totals.insertAll i.campaigns
  applied := s.applied.insertAll i.applied
  firsts := i.firsts.foldl remember s.firsts

end Statistics

end MailCampaign
