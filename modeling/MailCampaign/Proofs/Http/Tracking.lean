import MailCampaign.Http.Server
import MailCampaign.Proofs.Engine.Registry

/-!
# Tracking links and webhooks

A request to a tracking link or to a webhook gives a notice. Most notices are refused and change
nothing, or their signal is taken in once and the response says so.

1. A notice has a signal, or there is something wrong with it, which is found before anything is done
   (`Notice.signal`).
2. A server answers a notice that is wrong as a bad request and leaves the engine as it is
   (`on_handle_refused`); it takes the signal of any other one in, and answers (`on_handle_taken`).
3. A signal that is taken in is a duplicate and changes nothing, or it is counted once
   (`takenOnce_of_ok`).

The exception is a click on a link with a target that no header can hold: this is found out only when
the click was taken in, and the response leads nowhere.
-/

namespace MailCampaign.Http

variable {σ : Type}

/-! ## Notices -/

/-- What is noted at a tracking link, or told to a webhook. -/
inductive Notice where
  | opened (q : TrackQuery)
  | clicked (q : TrackQuery)
  | told (w : Webhook) (c : WebhookCall)

/-- The notice that a request to an endpoint gives. -/
def Endpoint.notice? (r : Request) (query : List Char) : Endpoint → Option Notice
  | .trackOpen => (TrackQuery.read query).toOption.map .opened
  | .trackClick => (TrackQuery.read query).toOption.map .clicked
  | .webhook w => (body WebhookCall.decoder r).toOption.map (.told w)
  | _ => none

/-- The notice that a request gives, if its method is taken where it goes and what it carries can be
read. -/
def Request.notice? (r : Request) : Option Notice :=
  let (path, query) := pathAndQuery r.target.toList
  (Endpoint.ofPath? path).bind fun e => if e.accepts r.method then e.notice? r query else none

namespace Notice

/-- The signal of a notice, or what is wrong with the notice. -/
def signal (r : Request) : Notice → Except String Signal
  | opened q => .ok (q.signal .pixelHit r)
  | clicked q =>
    match clickTarget q with
    | some url => .ok (q.signal (.clickRedirect url) r)
    | none => .error "click target must be an http(s) URL"
  | told w c => if blankText c.lead then .error "'lead_id' must not be empty" else .ok (c.signal w)

/-- The response to a notice that was taken in. -/
def reply (report : IngestReport) : Notice → Response
  | opened _ => ⟨200, .pixel⟩
  | clicked q => redirect (q.url.getD "")
  | told _ _ => ⟨202, .json (reportJson report)⟩

end Notice

/-- The response as it is sent: without its content to those who asked for the head alone. -/
def Request.shown (r : Request) (response : Response) : Response :=
  if r.method == "HEAD" then headOnly response else response

@[simp] theorem Request.shown_status (r : Request) (response : Response) :
    (r.shown response).status = response.status := by
  unfold Request.shown headOnly
  split
  · split <;> rfl
  · rfl

/-- Where an address stands in a response, it is sent to all. -/
@[simp] theorem Request.shown_location (r : Request) (status : Nat) (url : String) :
    r.shown ⟨status, .location url⟩ = ⟨status, .location url⟩ := by
  unfold Request.shown headOnly
  split <;> rfl

@[simp] theorem Request.shown_nothing (r : Request) (status : Nat) :
    r.shown ⟨status, .nothing⟩ = ⟨status, .nothing⟩ := by
  unfold Request.shown headOnly
  split <;> rfl

theorem clickTarget_eq_some_iff {q : TrackQuery} {url : String} :
    clickTarget q = some url ↔ q.url = some url ∧
      ("https://".toList <+: url.toList ∨ "http://".toList <+: url.toList) := by
  unfold clickTarget
  rw [Option.filter_eq_some_iff, Bool.or_eq_true, String.startsWith_string_iff,
    String.startsWith_string_iff]

/-! ## Answering -/

section Answering

variable {server : Server} {svc : Services σ} {r : Request} {now : Instant} {n : Notice}
  {s t : Session σ} {report : IngestReport} {signal : Signal} {message : String}

theorem Notice.signal_clicked {q : TrackQuery} {url : String} (h : clickTarget q = some url) :
    (Notice.clicked q).signal r = .ok (q.signal (.clickRedirect url) r) := by
  simp only [Notice.signal, h]

theorem on_answering {op : Engine σ Response} {response : Response}
    (h : op.on s = (.ok response, t)) : (answering op).on s = (.ok response, t) := by
  unfold answering
  rw [Engine.on_tryCatch, h]

theorem on_ingestQuietly (h : (Engine.ingestSignal svc signal now).on s = (.ok report, t)) :
    (ingestQuietly svc signal now).on s = (.ok (), t) := by
  unfold ingestQuietly
  rw [Engine.on_tryCatch, Engine.on_discard, h]
  rfl

theorem Request.notice?_eq_some_iff :
    r.notice? = some n ↔ ∃ e, Endpoint.ofPath? (pathAndQuery r.target.toList).1 = some e ∧
      e.accepts r.method = true ∧ e.notice? r (pathAndQuery r.target.toList).2 = some n := by
  unfold Request.notice?
  simp only [Option.bind_eq_some_iff, Option.ite_none_right_eq_some]

/-- Endpoints do not take the method that asks for what they take. -/
theorem Endpoint.method_ne_options {e : Endpoint} (h : e.accepts r.method = true) :
    (r.method == "OPTIONS") = false := by
  refine Bool.eq_false_iff.2 fun hoptions => ?_
  rw [eq_of_beq hoptions, Endpoint.accepts] at h
  cases hreads : e.reads <;> simp [hreads] at h

/-- A request to an endpoint is answered with what the endpoint answers. -/
theorem on_handle {e : Endpoint} {response : Response}
    (he : Endpoint.ofPath? (pathAndQuery r.target.toList).1 = some e)
    (hmethod : e.accepts r.method = true)
    (h : (serve server svc r (pathAndQuery r.target.toList).2 now e).on s = (.ok response, t)) :
    (handle server svc r now).on s = (.ok (r.shown response), t) := by
  unfold handle
  dsimp only
  rw [if_neg (Bool.eq_false_iff.1 (Endpoint.method_ne_options hmethod)), he]
  dsimp only
  rw [if_pos hmethod, Engine.on_bind_ok (on_answering h)]
  rfl

/-- What a server does with a notice. -/
def Notice.take (svc : Services σ) (r : Request) (now : Instant) : Notice → Engine σ Response
  | opened q => trackOpen svc q r now
  | clicked q => trackClick svc q r now
  | told w c => webhook svc (c.signal w) now

theorem serve_notice {e : Endpoint} {query : List Char} (hn : e.notice? r query = some n) :
    serve server svc r query now e = n.take svc r now := by
  cases e with
  | trackOpen | trackClick =>
    unfold serve
    simp only [Endpoint.notice?] at hn
    cases hq : TrackQuery.read query <;> rw [hq] at hn <;> cases hn
    rfl
  | webhook w =>
    unfold serve
    simp only [Endpoint.notice?] at hn
    cases hc : body WebhookCall.decoder r <;> rw [hc] at hn <;> cases hn
    rfl
  | _ => cases hn

/-- A notice with nothing wrong is taken in. -/
theorem Notice.on_take_ok (hsignal : n.signal r = .ok signal)
    (h : (Engine.ingestSignal svc signal now).on s = (.ok report, t)) :
    (n.take svc r now).on s = (.ok (n.reply report), t) := by
  cases n with
  | opened q =>
    cases hsignal
    exact Engine.on_bind_ok (on_ingestQuietly h)
  | clicked q =>
    simp only [Notice.signal] at hsignal
    show (trackClick svc q r now).on s = _
    unfold trackClick
    cases hurl : clickTarget q with
    | none => rw [hurl] at hsignal; cases hsignal
    | some url =>
      rw [hurl] at hsignal
      cases hsignal
      dsimp only
      rw [Engine.on_bind_ok (on_ingestQuietly h), Notice.reply, (clickTarget_eq_some_iff.1 hurl).1]
      rfl
  | told w c =>
    simp only [Notice.signal] at hsignal
    show (webhook svc (c.signal w) now).on s = _
    unfold webhook
    split at hsignal
    · cases hsignal
    · next hlead =>
      cases hsignal
      rw [if_neg (show ¬blankText (c.signal w).leadId = true from hlead)]
      exact Engine.on_bind_ok h

/-- A notice with something wrong is refused before anything is done. -/
theorem Notice.on_take_error (hsignal : n.signal r = .error message) :
    (n.take svc r now).on s = (.ok (badRequest message), s) := by
  cases n with
  | opened q => cases hsignal
  | clicked q =>
    simp only [Notice.signal] at hsignal
    show (trackClick svc q r now).on s = _
    unfold trackClick
    cases hurl : clickTarget q with
    | some url => rw [hurl] at hsignal; cases hsignal
    | none =>
      rw [hurl] at hsignal
      cases hsignal
      rfl
  | told w c =>
    simp only [Notice.signal] at hsignal
    show (webhook svc (c.signal w) now).on s = _
    unfold webhook
    split at hsignal
    · next hlead =>
      cases hsignal
      rw [if_pos (show blankText (c.signal w).leadId = true from hlead)]
      rfl
    · cases hsignal

/-- A request that gives a notice is answered with what is done with the notice. -/
theorem on_handle_notice {response : Response} (hn : r.notice? = some n)
    (h : (n.take svc r now).on s = (.ok response, t)) :
    (handle server svc r now).on s = (.ok (r.shown response), t) := by
  obtain ⟨e, he, hmethod, hnotice⟩ := Request.notice?_eq_some_iff.1 hn
  exact on_handle he hmethod (serve_notice hnotice ▸ h)

/-! ## Taking in -/

/-- A signal was taken in by one ingest, with its report and the session after it. If the key of its
event was let in before, nothing changed; otherwise the event was let in, and counted once unless its
key was counted before. -/
structure TakenOnce (svc : Services σ) (signal : Signal) (now : Instant) (s : Session σ)
    (report : IngestReport) (t : Session σ) : Prop where
  on : (Engine.ingestSignal svc signal now).on s = (.ok report, t)
  again : s.world.seen.table.find? (signal.key now) ≠ none →
    report = { key := signal.key now, duplicate := true } ∧ t = s
  first : s.world.seen.table.find? (signal.key now) = none → report.duplicate = false
  counted : s.world.seen.table.find? (signal.key now) = none →
    s.world.statistics.applied.find? (signal.key now) = none →
    s.world.CountedOnce (signal.toEngagement now) now t.world

theorem takenOnce_of_ok (h : (Engine.ingestSignal svc signal now).on s = (.ok report, t)) :
    TakenOnce svc signal now s report t := by
  have hnew (hfresh : s.world.seen.table.find? (signal.key now) = none) :
      report.duplicate = false := by
    obtain ⟨seen, hseen⟩ := SeenKeys.receive_of_fresh hfresh now
    have hprocess := h
    rw [Engine.ingestSignal, Engine.on_ingest_new (e := signal.toEngagement now) hseen,
      Engine.on_process] at hprocess
    split at hprocess
    · next hon =>
      cases hprocess
      exact Engine.onward_report (by rw [hon])
    · cases hprocess
  refine ⟨h, fun hseen => ?_, hnew, fun hfresh happlied => ?_⟩
  · obtain ⟨a, ha⟩ := Option.ne_none_iff_exists'.1 hseen
    have hagain := Engine.on_ingest_seen (e := signal.toEngagement now) ha svc now
    exact ⟨Except.ok.inj (congrArg Prod.fst (h.symm.trans hagain)),
      congrArg Prod.snd (h.symm.trans hagain)⟩
  · refine Engine.ingest_counted h (hnew hfresh) ?_
    show s.world.statistics.applied.find? (signal.key now) =
      (s.world.seen.table.find? (signal.key now)).map Admission.time
    rw [happlied, hfresh]
    rfl

/-! ## Answers -/

/-- The response that a notice asks for once it was taken in: the pixel, the way to exactly the address
that was asked for, which is one of the web, or the report. -/
inductive Notice.Answers (report : IngestReport) : Notice → Response → Prop
  | opened {q : TrackQuery} : Answers report (.opened q) ⟨200, .pixel⟩
  | clicked {q : TrackQuery} {url : String} : q.url = some url →
      "https://".toList <+: url.toList ∨ "http://".toList <+: url.toList →
      Answers report (.clicked q) ⟨302, .location url⟩
  | told {w : Webhook} {c : WebhookCall} : Answers report (.told w c) ⟨202, .json (reportJson report)⟩

/-- A response to a notice and the session after it, with nothing done by half: an error and nothing
changed, or the signal of the notice taken in once and the response that it asks for. -/
inductive Settled (svc : Services σ) (r : Request) (now : Instant) (n : Notice) (s : Session σ) :
    Response → Session σ → Prop
  | refused {response : Response} : 400 ≤ response.status → Settled svc r now n s response s
  | taken {response : Response} {signal : Signal} {report : IngestReport} {t : Session σ} :
      n.signal r = .ok signal → TakenOnce svc signal now s report t → n.Answers report response →
      Settled svc r now n s (r.shown response) t

/-- A click that was taken in once, on a link whose target no header can hold: the response leads
nowhere. -/
structure Stranded (svc : Services σ) (r : Request) (now : Instant) (n : Notice) (s : Session σ)
    (response : Response) (t : Session σ) : Prop where
  click : ∃ q url, n = .clicked q ∧ clickTarget q = some url ∧ legalValue url = false
  taken : ∃ signal report, n.signal r = .ok signal ∧ TakenOnce svc signal now s report t
  nowhere : response = ⟨302, .nothing⟩

/-- The reply is the one that a notice asks for, unless the address in it cannot be sent. -/
theorem Notice.reply_answers (hsignal : n.signal r = .ok signal) (report : IngestReport) :
    n.Answers report (n.reply report) ∨
      (∃ q url, n = .clicked q ∧ clickTarget q = some url ∧ legalValue url = false) ∧
        n.reply report = ⟨302, .nothing⟩ := by
  cases n with
  | opened q => exact .inl .opened
  | told w c => exact .inl .told
  | clicked q =>
    simp only [Notice.signal] at hsignal
    cases hurl : clickTarget q with
    | none => rw [hurl] at hsignal; cases hsignal
    | some url =>
      obtain ⟨hq, hweb⟩ := clickTarget_eq_some_iff.1 hurl
      unfold Notice.reply redirect
      dsimp only
      rw [hq, Option.getD_some]
      by_cases hlegal : legalValue url = true
      · rw [if_pos hlegal]
        exact .inl (.clicked hq hweb)
      · rw [if_neg hlegal]
        exact .inr ⟨⟨q, url, rfl, hurl, Bool.eq_false_iff.2 hlegal⟩, rfl⟩

/-- The response to a click that is settled is an error, or it leads to the address that was asked
for. -/
theorem Settled.redirects {q : TrackQuery} {response : Response}
    (h : Settled svc r now (.clicked q) s response t) :
    400 ≤ response.status ∨ ∃ url, q.url = some url ∧ response = ⟨302, .location url⟩ := by
  cases h with
  | refused herror => exact .inl herror
  | taken _ _ hanswers =>
    cases hanswers with
    | clicked hq _ => exact .inr ⟨_, hq, r.shown_location 302 _⟩

/-- **Notices at tracking links and webhooks.** Whatever the notice that a request gives, if its signal
can be taken in, there is a response. It is an error and the engine is unchanged, or the signal was
taken in exactly once and the response is the one that the notice asks for. The one exception is a click
on a link whose target no header can hold, which is taken in and answered without the target. -/
theorem notice_settled (server : Server) (hn : r.notice? = some n)
    (hok : ∀ signal, n.signal r = .ok signal →
      ∃ report t, (Engine.ingestSignal svc signal now).on s = (.ok report, t)) :
    ∃ response t, (handle server svc r now).on s = (.ok response, t) ∧
      (Settled svc r now n s response t ∨ Stranded svc r now n s response t) := by
  cases hsignal : n.signal r with
  | error message =>
    refine ⟨_, s, on_handle_notice hn (Notice.on_take_error hsignal), .inl (.refused ?_)⟩
    rw [Request.shown_status]
    exact Nat.le_refl 400
  | ok signal =>
    obtain ⟨report, t, h⟩ := hok signal hsignal
    have honce := takenOnce_of_ok h
    refine ⟨_, t, on_handle_notice hn (Notice.on_take_ok hsignal h), ?_⟩
    obtain hanswers | ⟨hclick, hreply⟩ := Notice.reply_answers hsignal report
    · exact .inl (.taken hsignal honce hanswers)
    · refine .inr ⟨hclick, ⟨signal, report, hsignal, honce⟩, ?_⟩
      rw [hreply, Request.shown_nothing]

end Answering

/-! ## Two clicks -/

deriving instance DecidableEq for TrackQuery, WebhookCall, Notice

/-- A click of ada on a link to an address with its escapes. -/
def Request.click (address : String) : Request where
  method := "GET"
  target := "/t/click?c=00000000-0000-0000-0000-000000000007&l=ada&m=5&url=" ++ address
  headers := []
  body := ""

/-- The query of such a click. -/
def TrackQuery.click (url : String) : TrackQuery := ⟨.ofNat 7, "ada", some "5", some url⟩

/-- A fresh engine. -/
def freshSession : Session Nat := ⟨World.empty 0, 0⟩

/-- A fresh engine takes in a click on an address of the web. -/
theorem click_taken (url address : String)
    (hweb : "https://".toList <+: url.toList ∨ "http://".toList <+: url.toList)
    (hok : ((Engine.ingestSignal .plain ((TrackQuery.click url).signal (.clickRedirect url)
      (.click address)) .epoch).on freshSession).1 = .ok { key := "5:clicked" }) :
    ∀ signal, (Notice.clicked (.click url)).signal (.click address) = .ok signal →
      ∃ report t, (Engine.ingestSignal .plain signal .epoch).on freshSession = (.ok report, t) := by
  intro signal hsignal
  rw [Notice.signal_clicked (clickTarget_eq_some_iff.2 ⟨rfl, hweb⟩)] at hsignal
  cases hsignal
  exact ⟨_, _, Prod.ext hok rfl⟩

/-- A click on a link to a page of the web is settled. -/
theorem notice_settled_pricing :
    (Request.click "https://example.com/pricing").notice? =
      some (.clicked (.click "https://example.com/pricing")) ∧
    ∃ response t,
      (handle ⟨"node", 0⟩ .plain (.click "https://example.com/pricing") .epoch).on freshSession =
        (.ok response, t) ∧
      Settled .plain (.click "https://example.com/pricing") .epoch
        (.clicked (.click "https://example.com/pricing")) freshSession response t := by
  have hnotice : (Request.click "https://example.com/pricing").notice? =
      some (.clicked (.click "https://example.com/pricing")) := by decide +kernel
  refine ⟨hnotice, ?_⟩
  obtain ⟨response, t, hhandle, hsettled | hstranded⟩ := notice_settled ⟨"node", 0⟩ hnotice
    (click_taken _ _ (.inl (by decide +kernel)) (by decide +kernel))
  · exact ⟨response, t, hhandle, hsettled⟩
  · obtain ⟨q, url, hq, hurl, hillegal⟩ := hstranded.click
    cases hq
    obtain ⟨hpage, -⟩ := clickTarget_eq_some_iff.1 hurl
    cases hpage
    exact absurd hillegal (by decide +kernel)

/-- A click on a link to an address with a line break is taken in, yet the response is neither an error
nor does it lead to the address. -/
theorem click_stranded :
    (Request.click "http://x%0Ay").notice? = some (.clicked (.click "http://x\ny")) ∧
    (∀ signal, (Notice.clicked (.click "http://x\ny")).signal (.click "http://x%0Ay") = .ok signal →
      ∃ report t, (Engine.ingestSignal .plain signal .epoch).on freshSession = (.ok report, t)) ∧
    ¬ ∃ response t,
      (handle ⟨"node", 0⟩ .plain (.click "http://x%0Ay") .epoch).on freshSession = (.ok response, t) ∧
      Settled .plain (.click "http://x%0Ay") .epoch (.clicked (.click "http://x\ny")) freshSession
        response t := by
  have hnotice : (Request.click "http://x%0Ay").notice? =
      some (.clicked (.click "http://x\ny")) := by decide +kernel
  have htaken := click_taken "http://x\ny" "http://x%0Ay" (.inr (by decide +kernel))
    (by decide +kernel)
  refine ⟨hnotice, htaken, ?_⟩
  rintro ⟨response, t, hhandle, hsettled⟩
  have hsignal : (Notice.clicked (.click "http://x\ny")).signal (.click "http://x%0Ay") =
      .ok ((TrackQuery.click "http://x\ny").signal (.clickRedirect "http://x\ny")
        (.click "http://x%0Ay")) :=
    Notice.signal_clicked (clickTarget_eq_some_iff.2 ⟨rfl, .inr (by decide +kernel)⟩)
  obtain ⟨report, u, h⟩ := htaken _ hsignal
  -- The line break is no legal value of a header.
  have hreply : (Notice.clicked (.click "http://x\ny")).reply report = ⟨302, .nothing⟩ :=
    congrArg (Response.mk 302) (if_neg (by decide +kernel))
  have hresponse : response = ⟨302, .nothing⟩ := by
    rw [on_handle_notice hnotice (Notice.on_take_ok hsignal h), hreply, Request.shown_nothing]
      at hhandle
    exact (Except.ok.inj (congrArg Prod.fst hhandle)).symm
  obtain herror | ⟨url, -, hlocation⟩ := hsettled.redirects
  · rw [hresponse] at herror
    exact absurd herror (by decide)
  · rw [hresponse] at hlocation
    cases hlocation

end MailCampaign.Http
