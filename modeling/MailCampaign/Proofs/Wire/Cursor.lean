import MailCampaign.Proofs.Wire.Basic
import MailCampaign.Wire.Cursor

/-!
# Cursors and signals are read back

The kind of a signal is read from the fields next to those of the signal, as what a step does is.
-/

namespace MailCampaign

open Json (Decoder)
open Json.Decoder

variable {n : Nat}

theorem CursorState.reads (s : CursorState) : CursorState.decoder.Reads n s.json s :=
  reads_oneOf (by cases s <;> decide)

theorem Counters.reads (c : Counters) : Counters.decoder.Reads (n + 1) c.json c := by
  refine reads_record (by simp) (by simp) ?_ fun s h => ?_
  · simp [(reads_uint32 _).legible]
  · rw [h.required "emails_sent" (by simp) (reads_uint32 c.emailsSent),
      h.required "opens" (by simp) (reads_uint32 c.opens),
      h.required "clicks" (by simp) (reads_uint32 c.clicks),
      h.required "replies" (by simp) (reads_uint32 c.replies)]
    rfl

theorem Observation.reads (o : Observation) : Observation.decoder.Reads (n + 1) o.json o := by
  refine reads_record (by simp) (by simp) ?_ fun s h => ?_
  · simp [o.signal.reads.legible, o.time.reads.legible]
  · rw [h.required "signal" (by simp) o.signal.reads, h.required "at" (by simp) o.time.reads]
    rfl

theorem Window.reads (w : Window) : Window.decoder.Reads (n + 3) w.json w := by
  have hobserved := reads_list fun o (_ : o ∈ w.observed) => o.reads (n := n)
  refine reads_record (by simp) (by simp) ?_ fun s h => ?_
  · simp [(reads_string _).legible, w.opens.reads.legible, w.deadline.reads.legible, hobserved.legible]
  · rw [h.required "node_id" (by simp) (reads_string w.nodeId),
      h.required "window_start" (by simp) w.opens.reads,
      h.required "deadline" (by simp) w.deadline.reads,
      h.withDefault "observed" (by simp) hobserved]
    rfl

theorem Step.reads (t : Step) : Step.decoder.Reads (n + 1) t.json t := by
  refine reads_record (by simp) (by simp) ?_ fun s h => ?_
  · simp [(reads_string _).legible, t.time.reads.legible]
  · rw [h.required "node_id" (by simp) (reads_string t.nodeId),
      h.required "node_type" (by simp) (reads_string t.kind),
      h.required "outcome" (by simp) (reads_string t.outcome), h.required "at" (by simp) t.time.reads]
    rfl

/-- A cursor is read back; the most containers stand in its window or in its history. -/
theorem Cursor.reads (c : Cursor) : Cursor.decoder.Reads (n + 4) c.json c := by
  have hnext := Instant.reads_optional (n := n + 3) c.nextRun
  have hgoal := Instant.reads_optional (n := n + 3) c.goalReachedAt
  have hfailure := reads_optional_string (n := n + 3) c.failure
  have hcounters := Counters.reads (n := n + 2) c.counters
  have hwindow : Window.decoder.optional.Reads (n + 3) (.ofOption Window.json c.window) c.window :=
    reads_optional (fun w _ => w.reads) (by simp [Window.json])
  have hhistory := reads_list fun t (_ : t ∈ c.history) => t.reads (n := n + 1)
  refine reads_record (by simp) (by simp) ?_ fun s h => ?_
  · simp [(Uuid.reads _).legible, (reads_string _).legible, (CursorState.reads _).legible,
      (Instant.reads _).legible, (reads_uint32 _).legible, hnext.legible, hgoal.legible,
      hfailure.legible, hcounters.legible, hwindow.legible, hhistory.legible]
  · rw [h.required "id" (by simp) c.id.reads, h.required "flow_id" (by simp) c.flowId.reads,
      h.required "campaign_id" (by simp) c.campaignId.reads,
      h.required "lead_id" (by simp) (reads_string c.leadId),
      h.required "current_node_id" (by simp) (reads_string c.nodeId),
      h.required "state" (by simp) c.state.reads, h.nullable "next_run_at" (by simp) hnext,
      h.withDefault "counters" (by simp) hcounters,
      h.withDefault "retry_count" (by simp) (reads_uint32 c.retries),
      h.maybe "condition" (by simp) hwindow, h.required "enrolled_at" (by simp) c.enrolledAt.reads,
      h.required "updated_at" (by simp) c.updatedAt.reads, h.maybe "goal_reached_at" (by simp) hgoal,
      h.maybe "failure_reason" (by simp) hfailure, h.withDefault "history" (by simp) hhistory]
    rfl

/-! ## Signals -/

/-- The tag of a kind of signal. -/
def SignalKind.tag : SignalKind → String
  | .pixelHit => "pixel_hit"
  | .clickRedirect _ => "click_redirect"
  | .replyDetected => "reply_detected"
  | .bounce _ => "bounce"
  | .unsubscribe => "unsubscribe"

/-- The fields of a kind of signal next to its tag. -/
def SignalKind.details : SignalKind → List (String × Json)
  | .clickRedirect url => [("url", .str url)]
  | .bounce kind => [("kind", .str kind.name)]
  | .pixelHit | .replyDetected | .unsubscribe => []

theorem SignalKind.fields_eq (k : SignalKind) : k.fields = ("signal", .str k.tag) :: k.details := by
  cases k <;> rfl

/-- The decoder for a kind of signal is found by its tag. -/
theorem SignalKind.exists_decoder (k : SignalKind) :
    ∃ d, SignalKind.decoders.lookup k.tag = some d ∧
      Decoder.Reads d (n + 1) (.obj k.details) k := by
  cases k with
  | pixelHit | replyDetected | unsubscribe =>
    exact ⟨_, rfl, .obj (by simp [details]), fun _ _ => rfl⟩
  | clickRedirect url =>
    have hurl := reads_string (n := n) url
    refine ⟨_, rfl, reads_record (by simp [details]) (by simp [details]) ?_ fun s h => ?_⟩
    · simp [details, hurl.legible]
    · rw [h.required "url" (by simp [details]) hurl]
      rfl
  | bounce kind =>
    have hkind := kind.reads (n := n)
    refine ⟨_, rfl, reads_record (by simp [details]) (by simp [details]) ?_ fun s h => ?_⟩
    · simp [details, hkind.legible]
    · rw [h.withDefault "kind" (by simp [details]) hkind]
      rfl

theorem SignalKind.ofFields_fields (k : SignalKind) :
    SignalKind.ofFields (Source.ofJsonFields k.fields) = .value k := by
  obtain ⟨d, hlookup, hreads⟩ := k.exists_decoder (n := 0)
  have htag : "signal" ∉ k.details.map Prod.fst := by cases k <;> simp [details]
  rw [k.fields_eq, SignalKind.ofFields, tagged_cons htag]
  show (nameOrIndex SignalKind.decoders .buffer (.str k.tag) >>= fun d => _) = _
  rw [reads_nameOrIndex hlookup]
  exact hreads.reads .buffer trivial

/-- A signal is read back: none of the fields of its kind has the name of one of its own. -/
theorem Signal.reads (t : Signal) : Signal.decoder.Reads (n + 1) t.json t := by
  have hmessage := reads_optional_string (n := n) t.messageId
  have hkey := reads_optional_string (n := n) t.providerKey
  have htime := Instant.reads_optional (n := n) t.time
  have hip := reads_optional_string (n := n) t.ip
  have hagent := reads_optional_string (n := n) t.userAgent
  refine reads_recordWithRest (by cases t.kind <;> simp [SignalKind.fields]) ?_ fun s h => ?_
  · cases t.kind <;> simp [SignalKind.fields, t.campaignId.reads.legible, (reads_string _).legible,
      hmessage.legible, hkey.legible, htime.legible, hip.legible, hagent.legible]
  · have hothers : (t.kind.fields ++ [("campaign_id", t.campaignId.json), ("lead_id", .str t.leadId),
        ("message_id", .ofOption .str t.messageId),
        ("idempotency_key", .ofOption .str t.providerKey), ("at", .ofOption Instant.json t.time),
        ("ip", .ofOption .str t.ip), ("user_agent", .ofOption .str t.userAgent)]).filter
        (fun f => !(["campaign_id", "lead_id", "message_id", "idempotency_key", "at", "ip",
          "user_agent"].contains f.1)) = t.kind.fields := by
      cases t.kind <;> simp [SignalKind.fields]
    rw [hothers, t.kind.ofFields_fields, h.required "campaign_id" (by simp) t.campaignId.reads,
      h.required "lead_id" (by simp) (reads_string t.leadId),
      h.maybe "message_id" (by simp) hmessage, h.maybe "idempotency_key" (by simp) hkey,
      h.maybe "at" (by simp) htime, h.maybe "ip" (by simp) hip,
      h.maybe "user_agent" (by simp) hagent]
    rfl

end MailCampaign
