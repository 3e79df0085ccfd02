import MailCampaign.Proofs.Wire.Basic
import MailCampaign.Wire.Flow

/-!
# Flows are read back

What a step does is read from the fields next to its id, so these may not have the names of the id and
the tag.
-/

namespace MailCampaign

open Json (Decoder)
open Json.Decoder

variable {n : Nat}

theorem TimeUnit.reads (u : TimeUnit) : TimeUnit.decoder.Reads n (.str u.name) u :=
  reads_oneOf (by cases u <;> decide)

theorem MatchMode.reads (m : MatchMode) : MatchMode.decoder.Reads n (.str m.name) m :=
  reads_oneOf (by cases m <;> decide)

theorem GoalKind.reads (k : GoalKind) : GoalKind.decoder.Reads n (.str k.name) k :=
  reads_oneOf (by cases k <;> decide)

theorem Wait.reads (w : Wait) : Wait.decoder.Reads (n + 1) (.obj w.fields) w := by
  refine reads_record (by simp [Wait.fields]) (by simp [Wait.fields]) ?_ fun s h => ?_
  · simp [Wait.fields, (reads_uint32 _).legible, w.unit.reads.legible]
  · rw [h.required "amount" (by simp [Wait.fields]) (reads_uint32 w.amount),
      h.required "unit" (by simp [Wait.fields]) w.unit.reads]
    rfl

theorem Mail.reads (m : Mail) : Mail.decoder.Reads (n + 1) (.obj m.fields) m := by
  have htemplate := reads_optional_string (n := n) m.template
  refine reads_record (by simp [Mail.fields]) (by simp [Mail.fields]) ?_ fun s h => ?_
  · simp [Mail.fields, htemplate.legible, (reads_string _).legible]
  · rw [h.maybe "template_ref" (by simp [Mail.fields]) htemplate,
      h.withDefault "subject" (by simp [Mail.fields]) (reads_string m.subject),
      h.withDefault "body" (by simp [Mail.fields]) (reads_string m.body)]
    rfl

theorem Watch.reads (w : Watch) : Watch.decoder.Reads (n + 1) w.json w := by
  refine reads_record (by simp) (by simp) ?_ fun s h => ?_
  · simp [(reads_bool _).legible]
  · rw [h.withDefault "opened" (by simp) (reads_bool w.opened),
      h.withDefault "clicked" (by simp) (reads_bool w.clicked),
      h.withDefault "replied" (by simp) (reads_bool w.replied)]
    rfl

theorem Condition.reads (c : Condition) : Condition.decoder.Reads (n + 2) (.obj c.fields) c := by
  have hwatch := c.watch.reads (n := n)
  have hwait := c.wait.reads (n := n)
  refine reads_record (by simp [Condition.fields]) (by simp [Condition.fields]) ?_ fun s h => ?_
  · simp [Condition.fields, hwatch.legible, c.mode.reads.legible, hwait.legible]
  · rw [h.withDefault "watch" (by simp [Condition.fields]) hwatch,
      h.withDefault "match_mode" (by simp [Condition.fields]) c.mode.reads,
      h.required "wait" (by simp [Condition.fields]) hwait]
    rfl

theorem Goal.reads (g : Goal) : Goal.decoder.Reads (n + 1) (.obj g.fields) g := by
  have hlabel := reads_optional_string (n := n) g.label
  refine reads_record (by simp [Goal.fields]) (by simp [Goal.fields]) ?_ fun s h => ?_
  · simp [Goal.fields, g.kind.reads.legible, hlabel.legible]
  · rw [h.withDefault "kind" (by simp [Goal.fields]) g.kind.reads,
      h.maybe "label" (by simp [Goal.fields]) hlabel]
    rfl

/-! ## Steps -/

/-- The decoder for what a step does is found by the name of its kind. -/
theorem Action.exists_decoder (a : Action) : ∃ d, Action.decoders.lookup a.name = some d ∧
    Decoder.Reads d (n + 2) (.obj a.fields) a := by
  cases a with
  | email m => exact ⟨_, rfl, m.reads.map Action.email⟩
  | condition c => exact ⟨_, rfl, c.reads.map Action.condition⟩
  | delay w => exact ⟨_, rfl, w.reads.map Action.delay⟩
  | goal g => exact ⟨_, rfl, g.reads.map Action.goal⟩

/-- The names that stand next to the fields of a step are not among them. -/
theorem Action.fields_names (a : Action) :
    ("id" :: "type" :: a.fields.map Prod.fst).Nodup := by
  cases a <;> simp [Action.fields, Mail.fields, Condition.fields, Wait.fields, Goal.fields]

theorem Action.ofFields_fields (a : Action) :
    Action.ofFields (Source.ofJsonFields (("type", .str a.name) :: a.fields)) = .value a := by
  obtain ⟨d, hlookup, hreads⟩ := a.exists_decoder (n := 0)
  have htag : "type" ∉ a.fields.map Prod.fst :=
    (List.nodup_cons.1 (List.nodup_cons.1 a.fields_names).2).1
  rw [Action.ofFields, tagged_cons htag]
  show (nameOrIndex Action.decoders .buffer (.str a.name) >>= fun d => _) = _
  rw [reads_nameOrIndex hlookup]
  exact hreads.reads .buffer trivial

theorem Node.reads (v : Node) : Node.decoder.Reads (n + 3) v.json v := by
  have hnames := v.action.fields_names
  have hid : ∀ f ∈ v.action.fields, f.1 ≠ "id" := by
    intro f hf he
    exact (List.nodup_cons.1 hnames).1 (List.mem_cons_of_mem _ (he ▸ List.mem_map_of_mem hf))
  have hothers : (("id", Json.str v.id) :: ("type", .str v.action.name) :: v.action.fields).filter
      (fun f => !(["id"].contains f.1)) = ("type", .str v.action.name) :: v.action.fields := by
    simpa using hid
  refine reads_recordWithRest (by simpa using hnames) ?_ fun s h => ?_
  · obtain ⟨d, -, hreads⟩ := v.action.exists_decoder (n := n + 1)
    cases hreads.legible with
    | obj hfields => simpa [(reads_string _).legible] using fun a b hab => hfields (a, b) hab
  · rw [hothers, h.required "id" (by simp) (reads_string v.id), v.action.ofFields_fields]
    rfl

/-! ## Edges and definitions -/

theorem Edge.reads (e : Edge) : Edge.decoder.Reads (n + 1) e.json e := by
  have hsource := reads_optional_string (n := n) e.sourceHandle
  have htarget := reads_optional_string (n := n) e.targetHandle
  have hlabel := reads_optional_string (n := n) e.conditionLabel
  refine reads_record (by simp) (by simp) ?_ fun s h => ?_
  · simp [(reads_string _).legible, hsource.legible, htarget.legible, hlabel.legible]
  · rw [h.required "id" (by simp) (reads_string e.id),
      h.required "source" (by simp) (reads_string e.source), h.maybe "source_handle" (by simp) hsource,
      h.required "target" (by simp) (reads_string e.target), h.maybe "target_handle" (by simp) htarget,
      h.maybe "condition_label" (by simp) hlabel]
    rfl

theorem Document.reads (d : Document) : Document.decoder.Reads (n + 5) d.json d := by
  have hnodes := reads_list fun v (_ : v ∈ d.nodes) => v.reads (n := n)
  have hedges := reads_list fun e (_ : e ∈ d.edges) => e.reads (n := n + 2)
  refine reads_record (by simp) (by simp) ?_ fun s h => ?_
  · simp [hnodes.legible, hedges.legible]
  · rw [h.required "nodes" (by simp) hnodes, h.withDefault "edges" (by simp) hedges]
    rfl

theorem Definition.reads (d : Definition) : Definition.decoder.Reads (n + 5) d.json d := by
  have hnodes := reads_list fun v (_ : v ∈ d.document.nodes) => v.reads (n := n)
  have hedges := reads_list fun e (_ : e ∈ d.document.edges) => e.reads (n := n + 2)
  refine reads_record (by simp) (by simp) ?_ fun s h => ?_
  · simp [(Uuid.reads _).legible, (reads_uint32 _).legible, d.activatedAt.reads.legible,
      hnodes.legible, hedges.legible]
  · rw [h.required "id" (by simp) d.id.reads, h.required "campaign_id" (by simp) d.campaignId.reads,
      h.required "version" (by simp) (reads_uint32 d.version), h.required "nodes" (by simp) hnodes,
      h.required "edges" (by simp) hedges, h.required "activated_at" (by simp) d.activatedAt.reads]
    rfl

end MailCampaign
