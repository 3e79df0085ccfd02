import MailCampaign.Proofs.Wire.Cursor
import MailCampaign.Proofs.Wire.Flow
import MailCampaign.Wire.Journal

/-!
# Entries and snapshots are read back

An entry is kept as a whole until its kind is known, and then read from its other fields.
-/

namespace MailCampaign

open Json (Decoder)
open Json.Decoder

variable {n : Nat}

/-! ## Entries -/

theorem unique_reads (u : String × EngagementKind) :
    (pair string EngagementKind.decoder).Reads (n + 1) (uniqueJson u) u :=
  reads_pair (reads_string u.1) u.2.reads

/-- The fields of an entry next to its kind. -/
def Entry.fields : Entry → List (String × Json)
  | .flow d => [("definition", d.json)]
  | .campaign id status => [("campaign_id", id.json), ("status", status.json)]
  | .lead l => [("lead", l.json)]
  | .cursor c => [("cursor", c.json)]
  | .stats id totals applied unique =>
    [("campaign_id", id.json), ("stats", totals.json), ("applied_key", .ofOption datedKeyJson applied),
      ("unique", .ofOption uniqueJson unique)]
  | .seenKey key time => [("key", .str key), ("at", time.json)]

/-- The name of the kind of an entry. -/
def Entry.kind : Entry → String
  | .flow _ => "flow"
  | .campaign _ _ => "campaign"
  | .lead _ => "lead"
  | .cursor _ => "cursor"
  | .stats _ _ _ _ => "stats"
  | .seenKey _ _ => "seen_key"

theorem Entry.json_eq (e : Entry) : e.json = .obj (("kind", .str e.kind) :: e.fields) := by
  cases e <;> rfl

/-- The decoder for an entry is found by the name of its kind. -/
theorem Entry.exists_decoder (e : Entry) : ∃ d, Entry.decoders.lookup e.kind = some d ∧
    Decoder.Reads d (n + 6) (.obj e.fields) e := by
  cases e with
  | flow d =>
    refine ⟨_, rfl, reads_record (by simp [Entry.fields]) (by simp [Entry.fields]) ?_ fun s h => ?_⟩
    · simp [Entry.fields, d.reads.legible]
    · rw [h.required "definition" (by simp [Entry.fields]) d.reads]
      rfl
  | campaign id status =>
    refine ⟨_, rfl, reads_record (by simp [Entry.fields]) (by simp [Entry.fields]) ?_ fun s h => ?_⟩
    · simp [Entry.fields, id.reads.legible, status.reads.legible]
    · rw [h.required "campaign_id" (by simp [Entry.fields]) id.reads,
        h.required "status" (by simp [Entry.fields]) status.reads]
      rfl
  | lead l =>
    refine ⟨_, rfl, reads_record (by simp [Entry.fields]) (by simp [Entry.fields]) ?_ fun s h => ?_⟩
    · simp [Entry.fields, l.reads.legible]
    · rw [h.required "lead" (by simp [Entry.fields]) l.reads]
      rfl
  | cursor c =>
    refine ⟨_, rfl, reads_record (by simp [Entry.fields]) (by simp [Entry.fields]) ?_ fun s h => ?_⟩
    · simp [Entry.fields, c.reads.legible]
    · rw [h.required "cursor" (by simp [Entry.fields]) c.reads]
      rfl
  | stats id totals applied unique =>
    have happlied : datedKeyDecoder.optional.Reads (n + 5) (.ofOption datedKeyJson applied) applied :=
      reads_optional (fun e _ => datedKey_reads e) (by simp [datedKeyJson])
    have hunique : (pair string EngagementKind.decoder).optional.Reads (n + 5)
        (.ofOption uniqueJson unique) unique :=
      reads_optional (fun u _ => unique_reads u) (by simp [uniqueJson])
    refine ⟨_, rfl, reads_record (by simp [Entry.fields]) (by simp [Entry.fields]) ?_ fun s h => ?_⟩
    · simp [Entry.fields, id.reads.legible, totals.reads.legible, happlied.legible, hunique.legible]
    · rw [h.required "campaign_id" (by simp [Entry.fields]) id.reads,
        h.required "stats" (by simp [Entry.fields]) totals.reads,
        h.maybe "applied_key" (by simp [Entry.fields]) happlied,
        h.maybe "unique" (by simp [Entry.fields]) hunique]
      rfl
  | seenKey key time =>
    refine ⟨_, rfl, reads_record (by simp [Entry.fields]) (by simp [Entry.fields]) ?_ fun s h => ?_⟩
    · simp [Entry.fields, (reads_string key).legible, time.reads.legible]
    · rw [h.required "key" (by simp [Entry.fields]) (reads_string key),
        h.required "at" (by simp [Entry.fields]) time.reads]
      rfl

theorem Entry.legible (e : Entry) : e.json.Legible (n + 6) := by
  obtain ⟨d, -, hreads⟩ := e.exists_decoder (n := n)
  rw [e.json_eq]
  refine .obj ?_
  cases hreads.legible with
  | obj hfields => simpa [(reads_string _).legible] using fun a b hab => hfields (a, b) hab

theorem Entry.reads (e : Entry) : Entry.decoder.Reads (n + 6) e.json e where
  legible := e.legible
  reads p hp := by
    obtain ⟨d, hlookup, hreads⟩ := e.exists_decoder (n := n)
    have htag : "kind" ∉ e.fields.map Prod.fst := by cases e <;> simp [Entry.fields]
    have hkept : Entry.decoder.keepable p (.ofJson e.json) = true := by
      cases p with
      | text room => exact Source.keepable_ofJson e.legible hp
      | memory | buffer => rfl
    rw [e.json_eq, Source.ofJson] at hkept ⊢
    rw [Entry.decoder, if_pos hkept, tagged_cons htag]
    show (Reading.ofOption .mistyped (Entry.decoders.lookup e.kind) >>= fun d =>
      d .buffer (.obj (Source.ofJsonFields e.fields))) = _
    rw [hlookup]
    exact hreads.reads .buffer trivial

/-! ## Snapshots -/

theorem FirstOfKind.reads (f : FirstOfKind) : FirstOfKind.decoder.Reads (n + 1) f.json f where
  legible := .arr (by simp [f.campaign.reads.legible, (reads_string _).legible, f.kind.reads.legible])
  reads p hp := by
    obtain ⟨q, hq, henter⟩ := enter_of_fits hp
    rw [FirstOfKind.json, Source.ofJson, FirstOfKind.decoder, henter]
    show FirstOfKind.mk <$> Uuid.decoder q (.ofJson f.campaign.json) <*>
      string q (.ofJson (.str f.leadId)) <*> EngagementKind.decoder q (.ofJson f.kind.json) = _
    rw [f.campaign.reads.reads q hq, (reads_string f.leadId).reads q hq, f.kind.reads.reads q hq]
    rfl

theorem StatisticsImage.reads (i : StatisticsImage) :
    StatisticsImage.decoder.Reads (n + 4) i.json i := by
  have hcampaigns := reads_list fun e (_ : e ∈ i.campaigns) =>
    reads_pair (e.1.reads (n := n + 1)) e.2.reads
  have happlied := reads_list fun e (_ : e ∈ i.applied) => datedKey_reads (n := n + 1) e
  have hfirsts := reads_list fun f (_ : f ∈ i.firsts) => f.reads (n := n + 1)
  refine reads_record (by simp) (by simp) ?_ fun s h => ?_
  · simp [hcampaigns.legible, happlied.legible, hfirsts.legible]
  · rw [h.required "campaigns" (by simp) hcampaigns, h.required "applied_keys" (by simp) happlied,
      h.required "unique" (by simp) hfirsts]
    rfl

theorem Snapshot.reads (s : Snapshot) : Snapshot.decoder.Reads (n + 7) s.json s := by
  have htaken := Instant.reads_optional (n := n + 6) s.takenAt
  have hflows := reads_list fun d (_ : d ∈ s.flows) => d.reads (n := n)
  have hcursors := reads_list fun c (_ : c ∈ s.cursors) => c.reads (n := n + 1)
  have hleads := reads_list fun l (_ : l ∈ s.leads) => l.reads (n := n + 3)
  have hcampaigns := reads_list fun e (_ : e ∈ s.campaigns) =>
    reads_pair (e.1.reads (n := n + 4)) e.2.reads
  have hseen := reads_list fun e (_ : e ∈ s.seen) => datedKey_reads (n := n + 4) e
  have hstatistics := s.statistics.reads (n := n + 2)
  refine reads_record (by simp) (by simp) ?_ fun t h => ?_
  · simp [htaken.legible, hflows.legible, hcursors.legible, hleads.legible, hcampaigns.legible,
      hstatistics.legible, hseen.legible]
  · rw [h.nullable "taken_at" (by simp) htaken, h.required "flows" (by simp) hflows,
      h.required "cursors" (by simp) hcursors, h.required "leads" (by simp) hleads,
      h.required "campaigns" (by simp) hcampaigns, h.required "stats" (by simp) hstatistics,
      h.required "seen_keys" (by simp) hseen]
    rfl

end MailCampaign
