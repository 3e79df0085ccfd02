import MailCampaign.Proofs.Instant.Text
import MailCampaign.Proofs.Json.Read
import MailCampaign.Proofs.Text.Uuid

/-!
# Identifiers, leads and totals are read back

Each decoder reads the value that the type is written as, with room for its containers.
-/

namespace MailCampaign

open Json (Decoder)
open Json.Decoder

variable {n : Nat}

theorem Uuid.reads (u : Uuid) : Uuid.decoder.Reads n u.json u := reads_parsed u.ofText?_text

theorem Instant.reads (t : Instant) : Instant.decoder.Reads n t.json t := reads_parsed t.ofText?_text

theorem datedKey_reads (e : String × Instant) : datedKeyDecoder.Reads (n + 1) (datedKeyJson e) e :=
  reads_pair (reads_string e.1) (Instant.reads e.2)

/-! ## Values that may be absent -/

theorem reads_optional_string (o : Option String) : string.optional.Reads n (.ofOption .str o) o :=
  reads_optional (fun s _ => reads_string s) (by simp)

theorem Instant.reads_optional (o : Option Instant) :
    Instant.decoder.optional.Reads n (.ofOption Instant.json o) o :=
  Decoder.reads_optional (fun t _ => t.reads) (by simp [Instant.json])

/-! ## Leads -/

namespace Table

variable {κ ν : Type} [DecidableEq κ]

theorem place_of_notMem {k : κ} {v : ν} {l : List (κ × ν)} (h : k ∉ l.map Prod.fst) :
    place k v l = l ++ [(k, v)] := by
  induction l with
  | nil => rfl
  | cons e rest ih =>
    obtain ⟨k', v'⟩ := e
    simp only [List.map_cons, List.mem_cons, not_or] at h
    rw [place, if_neg fun he => h.1 he.symm, ih h.2, List.cons_append]

/-- Entries with new keys are added in their order. -/
theorem entries_insertAll (t : Table κ ν) {l : List (κ × ν)}
    (h : ((t.entries ++ l).map Prod.fst).Nodup) : (t.insertAll l).entries = t.entries ++ l := by
  induction l generalizing t with
  | nil => simp [insertAll]
  | cons e rest ih =>
    obtain ⟨k, v⟩ := e
    have hnew : k ∉ t.entries.map Prod.fst := by
      intro hk
      rw [List.map_append, List.nodup_append] at h
      exact h.2.2 k hk k (by simp) rfl
    have hplace : (t.insert k v).entries = t.entries ++ [(k, v)] := place_of_notMem hnew
    have hrest := ih (t.insert k v) (by rw [hplace]; simpa using h)
    rw [hplace] at hrest
    simpa [insertAll] using hrest

/-- A table of entries with distinct keys holds each of them. -/
theorem entries_ofList {l : List (κ × ν)} (h : (l.map Prod.fst).Nodup) : (ofList l).entries = l :=
  entries_insertAll empty h

/-- A table is the table of its entries. -/
theorem ofList_toList (t : Table κ ν) : ofList t.toList = t := by
  have h : (ofList t.entries).entries = t.entries := entries_ofList t.distinct
  cases hlist : ofList t.toList with
  | mk entries distinct =>
    have hentries : entries = t.entries := by
      exact (congrArg Table.entries hlist).symm.trans h
    subst hentries
    rfl

end Table

theorem fields_reads (t : Table String String) :
    (table string).Reads (n + 1) (fieldsJson t) t where
  legible := by
    refine .obj fun f hf => ?_
    obtain ⟨e, -, rfl⟩ := List.mem_map.1 hf
    exact .str e.2
  reads p hp := by
    obtain ⟨q, -, henter⟩ := enter_of_fits hp
    have hmap : (t.toList.map fun e => (e.1, Json.str e.2)).map
        (fun f => ((some f.1, Source.ofJson f.2) : Option String × Source)) =
          t.toList.map fun e => (some e.1, .str e.2) := by
      rw [List.map_map]
      rfl
    have hentries : (t.toList.map fun e => ((some e.1, .str e.2) : Option String × Source)).mapM
        (fun f => do return (← fieldName f.1, ← string q f.2)) = Reading.value (t.toList.map id) := by
      rw [List.mapM_map]
      exact mapM_value fun e _ => rfl
    rw [fieldsJson, Source.ofJson, table, henter, Source.ofJsonFields_eq, hmap, hentries, List.map_id]
    exact congrArg Reading.value t.ofList_toList

theorem Lead.reads (l : Lead) : Lead.decoder.Reads (n + 2) l.json l := by
  have hid := reads_string (n := n + 1) l.id
  have hemail := reads_string (n := n + 1) l.email
  have hfields := fields_reads (n := n) l.fields
  refine reads_record (by simp) (by simp) ?_ fun s h => ?_
  · simp [hid.legible, hemail.legible, hfields.legible]
  · rw [h.required "id" (by simp) hid, h.required "email" (by simp) hemail,
      h.withDefault "fields" (by simp) hfields]
    rfl

/-! ## Kinds and states -/

theorem EngagementKind.reads (k : EngagementKind) : EngagementKind.decoder.Reads n k.json k :=
  reads_oneOf (by cases k <;> decide)

theorem BounceKind.reads (k : BounceKind) : BounceKind.decoder.Reads n (.str k.name) k :=
  reads_oneOf (by cases k <;> decide)

theorem CampaignStatus.reads (s : CampaignStatus) : CampaignStatus.decoder.Reads n s.json s :=
  reads_oneOf (by cases s <;> decide)

/-! ## Events -/

section presentField

variable {α : Type} {name : String} {f : α → Json} {o : Option α}

theorem presentField_names : ((presentField name f o).map Prod.fst).Sublist [name] := by
  cases o with
  | none => exact List.nil_sublist _
  | some a => exact .refl _

theorem mem_presentField {g : String × Json} :
    g ∈ presentField name f o ↔ ∃ a, o = some a ∧ g = (name, f a) := by
  cases o <;> simp [presentField]

theorem presentField_names_mem {other : String} :
    other ∈ (presentField name f o).map Prod.fst ↔ other = name ∧ o.isSome := by
  cases o <;> simp [presentField]

end presentField

theorem EventContext.reads (c : EventContext) : EventContext.decoder.Reads (n + 1) c.json c := by
  have hip := reads_optional_string (n := n) c.ip
  have hagent := reads_optional_string (n := n) c.userAgent
  have hurl := reads_optional_string (n := n) c.url
  have hbounce : BounceKind.decoder.optional.Reads n (.ofOption (fun k => .str k.name) c.bounceKind)
      c.bounceKind :=
    reads_optional (fun k _ => k.reads) (by simp)
  have hnames : ((presentField "ip" .str c.ip ++ presentField "user_agent" .str c.userAgent ++
      presentField "url" .str c.url ++
      presentField "bounce_kind" (fun k => .str k.name) c.bounceKind).map Prod.fst).Sublist
        ["ip", "user_agent", "url", "bounce_kind"] := by
    simp only [List.map_append]
    exact ((presentField_names.append presentField_names).append presentField_names).append
      presentField_names
  refine reads_record (fun g hg => hnames.subset (List.mem_map_of_mem hg))
    (hnames.nodup (by decide)) (fun g hg => ?_) fun s h => ?_
  · simp only [List.mem_append, mem_presentField] at hg
    obtain ((⟨t, -, rfl⟩ | ⟨t, -, rfl⟩) | ⟨t, -, rfl⟩) | ⟨k, -, rfl⟩ := hg <;> exact .str _
  · rw [h.maybe_present "ip" (by simp +contextual [mem_presentField])
        (by simp +contextual [presentField_names_mem]) hip,
      h.maybe_present "user_agent" (by simp +contextual [mem_presentField])
        (by simp +contextual [presentField_names_mem]) hagent,
      h.maybe_present "url" (by simp +contextual [mem_presentField])
        (by simp +contextual [presentField_names_mem]) hurl,
      h.maybe_present "bounce_kind" (by simp +contextual [mem_presentField])
        (by simp +contextual [presentField_names_mem]) hbounce]
    rfl

theorem Engagement.reads (e : Engagement) : Engagement.decoder.Reads (n + 2) e.json e := by
  have hcontext := e.context.reads (n := n)
  refine reads_record (by simp) (by simp) ?_ fun s h => ?_
  · simp [(reads_string _).legible, e.campaignId.reads.legible, e.kind.reads.legible,
      e.time.reads.legible, hcontext.legible]
  · rw [h.required "lead_id" (by simp) (reads_string e.leadId),
      h.required "campaign_id" (by simp) e.campaignId.reads,
      h.required "event_type" (by simp) e.kind.reads,
      h.required "timestamp" (by simp) e.time.reads,
      h.required "idempotency_key" (by simp) (reads_string e.key),
      h.withDefault "payload" (by simp) hcontext]
    rfl

/-! ## Totals -/

theorem Totals.reads (t : Totals) : Totals.decoder.Reads (n + 1) t.json t := by
  refine reads_record (by simp) (by simp) ?_ fun s h => ?_
  · simp [(reads_uint64 _).legible]
  · rw [h.required "sent" (by simp) (reads_uint64 t.sent),
      h.required "opens" (by simp) (reads_uint64 t.opens),
      h.required "unique_opens" (by simp) (reads_uint64 t.uniqueOpens),
      h.required "clicks" (by simp) (reads_uint64 t.clicks),
      h.required "unique_clicks" (by simp) (reads_uint64 t.uniqueClicks),
      h.required "replies" (by simp) (reads_uint64 t.replies),
      h.required "bounces" (by simp) (reads_uint64 t.bounces),
      h.required "unsubscribes" (by simp) (reads_uint64 t.unsubscribes),
      h.required "enrolled" (by simp) (reads_uint64 t.enrolled),
      h.required "goal_reached" (by simp) (reads_uint64 t.goalReached),
      h.required "completed" (by simp) (reads_uint64 t.completed),
      h.required "failed" (by simp) (reads_uint64 t.failed),
      h.required "canceled" (by simp) (reads_uint64 t.canceled)]
    rfl

end MailCampaign
