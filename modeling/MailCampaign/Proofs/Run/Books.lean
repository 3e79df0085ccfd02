import MailCampaign.Proofs.Cursor.Route
import MailCampaign.Proofs.Run.Deliveries

/-!
# The books of a run

A mail that was accepted is told of in the history and the counter of its cursor and in the totals of
its campaign. In a run in which every mail gets an id of its own and no event comes in under the key of
a mail, the books agree (`Played.books_agree`): a mail is missing in the history of its cursor only if
the cursor was canceled while the mail was out. And a cursor whose mail was accepted leaves the step
before it has another mail handed over.

The invariant is `Session.Books`. It is kept along the strides of a session.
-/

namespace MailCampaign

variable {σ : Type}

/-- The number of steps that a cursor has left, which is the number of its present visit to a step. -/
def Cursor.departures (c : Cursor) : Nat := c.history.countP fun s => s.Departs

/-- A history that grew by a mail grew by a line with which the cursor left a step. -/
theorem Cursor.departures_lt {c d : Cursor} (h : c.history <+: d.history) (hs : c.sents < d.sents) :
    c.departures < d.departures := by
  obtain ⟨l, hl⟩ := h
  unfold sents departures at *
  rw [← hl, List.countP_append] at hs ⊢
  have hmono : l.countP (fun s => s.outcome == "sent") ≤ l.countP fun s => s.Departs :=
    List.countP_mono_left fun s _ ho => by
      rw [beq_iff_eq] at ho
      exact decide_eq_true (by unfold Step.Departs; rw [ho]; exact List.mem_cons_self)
  omega

/-- The ids of the messages that were accepted, the latest first. -/
def World.messageIds (w : World) : List String := w.submissions.filterMap Submission.messageId?

namespace Moment

theorem Interrupted.call? {m : Moment} (h : m.Interrupted) : m.call? = none := by
  obtain ⟨i, hi⟩ := h
  unfold Moment.call?
  rw [hi]

theorem isCall_of_call? {m : Moment} (h : m.call? = none) : m.isCall = false := by
  unfold isCall
  split
  · next key now hs =>
    unfold Moment.call? at h
    rw [hs] at h
    cases h
  · rfl

theorem filter_isCall {ms : List Moment} (h : ∀ m ∈ ms, m.call? = none) :
    ms.filter isCall = [] :=
  List.filter_eq_nil_iff.2 fun m hm => by
    rw [isCall_of_call? (h m hm)]
    exact Bool.false_ne_true

end Moment

/-- A call of the mailer: the moment at which the mail was handed over, and what came of it. -/
structure Call where
  moment : Moment
  mail : Submission

namespace Call

/-- The mail of a cursor was accepted. -/
def acceptedFor (key : CursorKey) (c : Call) : Bool :=
  c.moment.call? == some key && c.mail.messageId?.isSome

def campaign? (c : Call) : Option Uuid :=
  (c.moment.call?.bind c.moment.world.cursors.find?).map Cursor.campaignId

/-- The mail of a cursor of a campaign was accepted. -/
def acceptedIn (campaign : Uuid) (c : Call) : Bool :=
  c.campaign? == some campaign && c.mail.messageId?.isSome

end Call

namespace Session

/-- The calls of the mailer, the latest first. -/
def calls (s : Session (σ × List Moment)) : List Call :=
  ((s.moments.filter Moment.isCall).zip s.world.submissions).map fun p => ⟨p.1, p.2⟩

/-- The number of mails that were accepted for a cursor. -/
def accepted (s : Session (σ × List Moment)) (key : CursorKey) : Nat :=
  s.calls.countP (Call.acceptedFor key)

/-- The cursor of a key ran when its last mail was handed over, and it was canceled before the mailer
answered. -/
def CanceledInFlight (s : Session (σ × List Moment)) (key : CursorKey) : Prop :=
  ∃ later during call earlier, s.moments = later ++ (during ++ call :: earlier) ∧
    call.call? = some key ∧ (∀ m ∈ later, m.call? ≠ some key) ∧ (∀ m ∈ during, m.Interrupted) ∧
    (∃ c, call.world.cursors.find? key = some c ∧ c.state.terminal = false) ∧
    ∃ m ∈ during, ∃ d, m.world.cursors.find? key = some d ∧ d.state = .canceled

/-- The books agree on a cursor. -/
structure Agrees (s : Session (σ × List Moment)) (key : CursorKey) (c : Cursor) : Prop where
  counter : c.counters.emailsSent = UInt32.ofNat c.sents
  history : s.accepted key = c.sents ∨
    s.accepted key = c.sents + 1 ∧ c.state = .canceled ∧ s.CanceledInFlight key

/-- The books agree. Events came in under the given keys. -/
structure Books (keys : String → Prop) (s : Session (σ × List Moment)) : Prop where
  /-- Each call has its mail. -/
  paired : (s.moments.filter Moment.isCall).length = s.world.submissions.length
  /-- Before a call the mails of the earlier calls had gone out. -/
  matched : ∀ later call earlier, s.calls = later ++ call :: earlier →
    call.moment.world.submissions = earlier.map Call.mail
  /-- Before a call the history of its cursor told of all mails that had been accepted for it. -/
  called : ∀ later call earlier key, s.calls = later ++ call :: earlier →
    call.moment.call? = some key → ∃ c, call.moment.world.cursors.find? key = some c ∧
      earlier.countP (Call.acceptedFor key) = c.sents
  cursors : ∀ key c, s.world.cursors.find? key = some c → s.Agrees key c
  unknown : ∀ key, s.world.cursors.find? key = none → s.accepted key = 0
  totals : ∀ campaign, (s.world.statistics.of campaign).sent =
    UInt64.ofNat (s.calls.countP (Call.acceptedIn campaign))
  applied : ∀ key, (s.world.statistics.applied.find? key).isSome = true →
    keys key ∨ ∃ id ∈ s.world.messageIds, key = sentKey id

/-- Every mail got an id of its own, and no event came in under the key of a mail. -/
structure Fair (keys : String → Prop) (s : Session (σ × List Moment)) : Prop where
  brought : ∀ key, Moment.BringsIn s.moments key → keys key
  distinct : s.world.messageIds.Nodup
  apart : ∀ id ∈ s.world.messageIds, ¬ keys (sentKey id)

variable {keys : String → Prop} {s t : Session (σ × List Moment)} {key : CursorKey} {c d : Cursor}
  {mail : Submission} {m : Moment} {during : List Moment} {now : Instant}

theorem CanceledInFlight.mono (h : s.CanceledInFlight key) {l : List Moment}
    (ht : t.moments = l ++ s.moments) (hl : ∀ m ∈ l, m.call? ≠ some key) :
    t.CanceledInFlight key := by
  obtain ⟨later, during, call, earlier, hsplit, hcall, hlater, hrest⟩ := h
  refine ⟨l ++ later, during, call, earlier, ?_, hcall, fun m hm => ?_, hrest⟩
  · rw [ht, hsplit, List.append_assoc]
  · exact (List.mem_append.1 hm).elim (hl m) (hlater m)

/-- A cursor that runs has all its mails in its history. -/
theorem Agrees.of_running (h : s.Agrees key c) (hr : c.state.terminal = false) :
    s.accepted key = c.sents := by
  refine h.history.resolve_right ?_
  rintro ⟨-, hcanceled, -⟩
  rw [hcanceled] at hr
  cases hr

/-- The books go on agreeing on a cursor that is new or sends no mail. -/
theorem Books.agrees (h : s.Books keys) {w : World} (hw : s.world.cursors = w.cursors)
    {keys' : String → Prop} {v : World} (hquiet : w.Unmailed keys' v)
    (hd : v.cursors.find? key = some d) (haccepted : t.accepted key = s.accepted key)
    {l : List Moment} (ht : t.moments = l ++ s.moments) (hl : ∀ m ∈ l, m.call? ≠ some key) :
    t.Agrees key d := by
  cases hc : w.cursors.find? key with
  | none =>
    obtain ⟨hsents, hcounter⟩ := hquiet.entered key d hc hd
    refine ⟨by rw [hcounter, hsents]; rfl, .inl ?_⟩
    rw [haccepted, hsents, h.unknown key (hw ▸ hc)]
  | some c =>
    have hsame := hquiet.same hc hd
    obtain ⟨hcounter, hhistory⟩ := h.cursors key c (hw ▸ hc)
    refine ⟨by rw [hsame.emailsSent, hsame.sents, hcounter], ?_⟩
    rw [haccepted, hsame.sents]
    exact hhistory.imp_right fun ⟨hn, hcanceled, hflight⟩ =>
      ⟨hn, hsame.canceled hcanceled, hflight.mono ht hl⟩

/-! ## Without mails -/

/-- Nothing about mails happens, and moments without calls are noted. -/
theorem Books.unmailed (h : s.Books keys) {l : List Moment} (ht : t.moments = l ++ s.moments)
    (hl : ∀ m ∈ l, m.call? = none) (hw : s.world.Unmailed keys t.world) : t.Books keys := by
  have hfilter : t.moments.filter Moment.isCall = s.moments.filter Moment.isCall := by
    rw [ht, List.filter_append, Moment.filter_isCall hl, List.nil_append]
  have hcalls : t.calls = s.calls := by
    unfold calls
    rw [hfilter, hw.submissions]
  have haccepted : ∀ key, t.accepted key = s.accepted key := fun key => by
    unfold accepted
    rw [hcalls]
  refine ⟨by rw [hfilter, hw.submissions, h.paired], by rw [hcalls]; exact h.matched,
    by rw [hcalls]; exact h.called, fun key d hd => ?_, fun key hn => ?_, fun campaign => ?_, fun key hk => ?_⟩
  · exact h.agrees rfl hw hd (haccepted key) ht fun m hm he => by rw [hl m hm] at he; cases he
  · rw [haccepted]
    exact h.unknown key (hw.unknown hn)
  · rw [hcalls, hw.totals campaign, h.totals campaign]
  · rcases hw.applied key hk with hk | hk
    · exact .inl hk
    · unfold World.messageIds
      rw [hw.submissions]
      exact h.applied key hk

/-! ## Deliveries -/

theorem calls_cons (ht : t.moments = during ++ m :: s.moments) (hcall : m.isCall = true)
    (hduring : ∀ m ∈ during, m.Interrupted)
    (hmails : t.world.submissions = mail :: s.world.submissions) :
    t.moments.filter Moment.isCall = m :: s.moments.filter Moment.isCall ∧
      t.calls = ⟨m, mail⟩ :: s.calls := by
  have hfilter : t.moments.filter Moment.isCall = m :: s.moments.filter Moment.isCall := by
    rw [ht, List.filter_append, Moment.filter_isCall fun m hm => (hduring m hm).call?,
      List.filter_cons_of_pos hcall, List.nil_append]
  refine ⟨hfilter, ?_⟩
  unfold calls
  rw [hfilter, hmails]
  rfl

/-- The calls are those of the moments, and the mails are those that went out, when they are as many. -/
theorem calls_eq_of_paired
    (h : (s.moments.filter Moment.isCall).length = s.world.submissions.length) :
    s.calls.map Call.moment = s.moments.filter Moment.isCall ∧
      s.calls.map Call.mail = s.world.submissions := by
  unfold calls
  rw [List.map_map, List.map_map]
  exact ⟨List.map_fst_zip (Nat.le_of_eq h), List.map_snd_zip (Nat.le_of_eq h.symm)⟩

theorem Books.calls_eq (h : s.Books keys) :
    s.calls.map Call.moment = s.moments.filter Moment.isCall ∧
      s.calls.map Call.mail = s.world.submissions := calls_eq_of_paired h.paired

theorem Books.matched_cons (h : s.Books keys) (hcalls : t.calls = ⟨m, mail⟩ :: s.calls)
    (hw : m.world = s.world) :
    ∀ later call earlier, t.calls = later ++ call :: earlier →
      call.moment.world.submissions = earlier.map Call.mail := by
  intro later call earlier hsplit
  rw [hcalls] at hsplit
  cases later with
  | nil =>
    obtain ⟨rfl, rfl⟩ := List.cons.inj hsplit
    rw [h.calls_eq.2, hw]
  | cons call' later => exact h.matched later call earlier (List.cons.inj hsplit).2

/-- The history of a running cursor tells of all mails that were accepted before the next call. -/
theorem Books.called_cons (h : s.Books keys) (hcalls : t.calls = ⟨m, mail⟩ :: s.calls)
    (hm : m.call? = some key) (hw : m.world = s.world) (hc : s.world.cursors.find? key = some c)
    (hr : c.state.terminal = false) :
    ∀ later call earlier key, t.calls = later ++ call :: earlier →
      call.moment.call? = some key → ∃ c, call.moment.world.cursors.find? key = some c ∧
        earlier.countP (Call.acceptedFor key) = c.sents := by
  intro later call earlier key' hsplit hcall
  rw [hcalls] at hsplit
  cases later with
  | nil =>
    obtain ⟨rfl, rfl⟩ := List.cons.inj hsplit
    obtain rfl : key = key' := Option.some.inj (hm.symm.trans hcall)
    exact ⟨c, hw ▸ hc, (h.cursors key c hc).of_running hr⟩
  | cons call' later => exact h.called later call earlier key' (List.cons.inj hsplit).2 hcall

theorem call?_ne {key' : CursorKey} (hm : m.call? = some key) (hk : key' ≠ key)
    (hduring : ∀ m ∈ during, m.Interrupted) : ∀ m' ∈ during ++ [m], m'.call? ≠ some key' := by
  intro m' hm' hcall
  rcases List.mem_append.1 hm' with hm' | hm'
  · rw [(hduring m' hm').call?] at hcall
    cases hcall
  · rw [List.mem_singleton.1 hm', hm] at hcall
    exact hk (Option.some.inj hcall).symm

/-- A mail is handed over and refused. -/
theorem Books.refused (h : s.Books keys) (hdelivers : s.Delivers key mail during t)
    (hmail : mail.messageId? = none) (hbrought : ∀ k, Moment.BringsIn during k → keys k) :
    t.Books keys := by
  obtain ⟨⟨now, hmoments⟩, hduring, hmails, c, u, d, hc, hr, hquiet, -, -, hsettled⟩ := hdelivers
  rw [hmail] at hsettled
  let m : Moment := ⟨some (.call key now), s.world⟩
  obtain ⟨hfilter, hcalls⟩ := calls_cons hmoments rfl hduring hmails
  have hwhole : (s.world.emit (.submission mail)).Unmailed keys t.world :=
    (hquiet.mono hbrought).trans (hsettled.mono fun _ h => h.elim)
  -- What counts accepted mails does not count this one.
  have hcount : ∀ p : Call → Bool, (∀ call, p call = true → call.mail.messageId?.isSome) →
      t.calls.countP p = s.calls.countP p := by
    intro p hp
    rw [hcalls, List.countP_cons_of_neg]
    intro hpm
    have hsome := hp _ hpm
    rw [hmail] at hsome
    cases hsome
  have haccepted : ∀ key, t.accepted key = s.accepted key := fun key =>
    hcount (Call.acceptedFor key) fun _ h => ((Bool.and_eq_true _ _).mp h).2
  refine ⟨?_, h.matched_cons hcalls rfl, h.called_cons hcalls rfl rfl hc hr, fun key' d' hd' => ?_, fun key' hn => ?_,
    fun campaign => ?_, fun k hk => ?_⟩
  · rw [hfilter, hmails, List.length_cons, List.length_cons, h.paired]
  · by_cases hk : key' = key
    · -- The cursor ran before, so none of its mails was missing.
      have hsame := hwhole.same (hk ▸ hc) hd'
      have hagrees := h.cursors key c hc
      refine ⟨by rw [hsame.emailsSent, hsame.sents, hagrees.counter], .inl ?_⟩
      rw [haccepted, hk, hagrees.of_running hr, hsame.sents]
    · exact h.agrees (w := s.world.emit (.submission mail)) (l := during ++ [m]) rfl hwhole hd'
        (haccepted key') (by rw [hmoments, List.append_assoc]; rfl) (call?_ne rfl hk hduring)
  · rw [haccepted]
    exact h.unknown key' (hwhole.unknown hn)
  · rw [hwhole.totals campaign,
      hcount (Call.acceptedIn campaign) fun _ h => ((Bool.and_eq_true _ _).mp h).2]
    exact h.totals campaign
  · rcases hwhole.applied k hk with hk | hk
    · exact .inl hk
    · unfold World.messageIds
      rw [hmails, List.filterMap_cons_none hmail]
      exact h.applied k hk

theorem accepted_cons (hcalls : t.calls = ⟨m, mail⟩ :: s.calls) (hm : m.call? = some key)
    (hmail : mail.messageId?.isSome = true) (key' : CursorKey) :
    t.accepted key' = s.accepted key' + if key' = key then 1 else 0 := by
  unfold accepted
  rw [hcalls, List.countP_cons]
  congr 1
  unfold Call.acceptedFor
  rw [hmail, hm, Bool.and_true]
  exact if_congr (by rw [beq_iff_eq, Option.some_inj, eq_comm]) rfl rfl

theorem acceptedIn_cons (hcalls : t.calls = ⟨m, mail⟩ :: s.calls) (hm : m.call? = some key)
    (hc : m.world.cursors.find? key = some c) (hmail : mail.messageId?.isSome = true)
    (campaign : Uuid) :
    t.calls.countP (Call.acceptedIn campaign) =
      s.calls.countP (Call.acceptedIn campaign) + if campaign = c.campaignId then 1 else 0 := by
  have hcampaign : Call.campaign? ⟨m, mail⟩ = some c.campaignId := by
    unfold Call.campaign?
    rw [hm, Option.bind_some, hc, Option.map_some]
  rw [hcalls, List.countP_cons]
  congr 1
  unfold Call.acceptedIn
  rw [hmail, hcampaign, Bool.and_true]
  exact if_congr (by rw [beq_iff_eq, Option.some_inj, eq_comm]) rfl rfl

/-- The books agree on the cursor of a mail that was accepted. -/
theorem Agrees.accepted (h : s.Agrees key c) (hr : c.state.terminal = false) (hsame : c.SameMail d)
    {u : World} {id : String} (hcounted : u.MailCounted key d id t.world) {e : Cursor}
    (he : t.world.cursors.find? key = some e) (hnumber : t.accepted key = s.accepted key + 1)
    (hended : d.state.terminal = true → d.state = .canceled ∧ t.CanceledInFlight key) :
    t.Agrees key e := by
  obtain ⟨e', he', -, hend, hran⟩ := hcounted.cursor
  obtain rfl : e' = e := Option.some.inj (he'.symm.trans he)
  have hcounter : d.counters.emailsSent = UInt32.ofNat d.sents := by
    rw [hsame.emailsSent, h.counter, hsame.sents]
  rw [h.of_running hr, ← hsame.sents] at hnumber
  cases ht : d.state.terminal with
  | true =>
    rw [hend ht]
    exact ⟨hcounter, .inr ⟨hnumber, hended ht⟩⟩
  | false =>
    obtain ⟨hsents, hemails⟩ := hran ht
    refine ⟨?_, .inl (by rw [hnumber, hsents])⟩
    rw [hemails, hsents, hcounter, UInt32.ofNat_add]
    rfl

/-- The key under which a mail is counted is new when its id is. -/
theorem Fair.new_key (ht : t.Fair keys) {id : String} {rest : List String}
    (hids : t.world.messageIds = id :: rest) {key : String}
    (hkey : keys key ∨ ∃ id' ∈ rest, key = sentKey id') : key ≠ sentKey id := by
  rintro rfl
  have hnodup := ht.distinct
  rw [hids] at hnodup
  rcases hkey with hkey | ⟨id', hid', he⟩
  · exact ht.apart id (hids ▸ List.mem_cons_self) hkey
  · exact (List.nodup_cons.1 hnodup).1 (sentKey_inj he ▸ hid')

/-- A mail is handed over and accepted. -/
theorem Books.accepted (h : s.Books keys) (hdelivers : s.Delivers key mail during t)
    {id : String} (hmail : mail.messageId? = some id) (hfair : t.Fair keys)
    (hbrought : ∀ k, Moment.BringsIn during k → keys k) : t.Books keys := by
  obtain ⟨⟨now, hmoments⟩, hduring, hmails, c, u, d, hc, hr, hquiet, hd, hended, hsettled⟩ :=
    hdelivers
  let m : Moment := ⟨some (.call key now), s.world⟩
  obtain ⟨hfilter, hcalls⟩ := calls_cons hmoments rfl hduring hmails
  have hids : t.world.messageIds = id :: s.world.messageIds := by
    unfold World.messageIds
    rw [hmails, List.filterMap_cons_some hmail]
  have happlied : ∀ k, (u.statistics.applied.find? k).isSome = true →
      keys k ∨ ∃ id ∈ s.world.messageIds, k = sentKey id := fun k hk =>
    (hquiet.applied k hk).elim (fun h => .inl (hbrought k h)) (h.applied k)
  -- The key of the mail was not taken, neither by an earlier mail nor by an event.
  have hnew : u.statistics.applied.find? (sentKey id) = none :=
    Option.not_isSome_iff_eq_none.1 fun hk => hfair.new_key hids (happlied _ hk) rfl
  have hisSome : mail.messageId?.isSome = true := by rw [hmail]; rfl
  rw [hmail] at hsettled
  have hcounted : u.MailCounted key d id t.world := hsettled hnew
  have hsame : c.SameMail d := hquiet.same hc hd
  have haccepted := accepted_cons hcalls rfl hisSome
  refine ⟨?_, h.matched_cons hcalls rfl, h.called_cons hcalls rfl rfl hc hr, fun key' e he => ?_, fun key' hn => ?_,
    fun campaign => ?_, fun k hk => ?_⟩
  · rw [hfilter, hmails, List.length_cons, List.length_cons, h.paired]
  · by_cases hk : key' = key
    · subst hk
      have hnumber : t.accepted key' = s.accepted key' + 1 := by rw [haccepted, if_pos rfl]
      -- A cursor that ended while the mail was out was canceled, and the mailer saw it so.
      refine (h.cursors key' c hc).accepted hr hsame hcounted he hnumber fun ht => ?_
      obtain ⟨hcanceled, m', hm', hw⟩ := hended ht
      exact ⟨hcanceled, [], during, m, s.moments, hmoments, rfl, fun _ h => absurd h List.not_mem_nil,
        hduring, ⟨c, hc, hr⟩, m', hm', d, hw ▸ hd, hcanceled⟩
    · rw [hcounted.others key' hk] at he
      exact h.agrees (w := s.world.emit (.submission mail)) (l := during ++ [m]) rfl hquiet he
        (by rw [haccepted, if_neg hk, Nat.add_zero]) (by rw [hmoments, List.append_assoc]; rfl)
        (call?_ne rfl hk hduring)
  · have hk : key' ≠ key := by
      rintro rfl
      obtain ⟨e, he, -⟩ := hcounted.cursor
      rw [hn] at he
      cases he
    rw [hcounted.others key' hk] at hn
    rw [haccepted, if_neg hk, Nat.add_zero]
    exact h.unknown key' (hquiet.unknown hn)
  · rw [hcounted.totals campaign, hquiet.totals campaign, acceptedIn_cons hcalls rfl hc hisSome,
      hsame.campaignId, UInt64.ofNat_add, ← h.totals campaign]
    split <;> rfl
  · rcases hcounted.applied k hk with rfl | hk
    · exact .inr ⟨id, hids ▸ List.mem_cons_self, rfl⟩
    · exact (happlied k hk).imp_right fun ⟨id', hid', he⟩ =>
        ⟨id', hids ▸ List.mem_cons_of_mem _ hid', he⟩

/-! ## Runs -/

theorem Fair.before (ht : t.Fair keys) {l : List Moment} (hmoments : t.moments = l ++ s.moments)
    (hids : s.world.messageIds.Sublist t.world.messageIds) : s.Fair keys where
  brought := fun key hkey =>
    ht.brought key (hkey.mono (hmoments ▸ List.subset_append_right l s.moments))
  distinct := ht.distinct.sublist hids
  apart := fun id hid => ht.apart id (hids.subset hid)

theorem Stride.fair (h : s.Stride keys t) (ht : t.Fair keys) : s.Fair keys := by
  cases h with
  | unmailed hw =>
    refine ht.before (l := []) rfl ?_
    unfold World.messageIds
    rw [hw.submissions]
  | delivered hd =>
    obtain ⟨now, hmoments⟩ := hd.moments
    refine ht.before (hmoments.trans (List.append_cons _ _ _)) ?_
    unfold World.messageIds
    rw [hd.mails]
    exact (List.sublist_cons_self _ _).filterMap _

theorem Books.stride (h : s.Books keys) (hstride : s.Stride keys t) (ht : t.Fair keys) :
    t.Books keys := by
  cases hstride with
  | unmailed hw => exact h.unmailed (l := []) rfl (fun m hm => absurd hm List.not_mem_nil) hw
  | @delivered key mail during _ hd =>
    obtain ⟨now, hmoments⟩ := hd.moments
    have hbrought : ∀ k, Moment.BringsIn during k → keys k := fun k hk =>
      ht.brought k (hk.mono (hmoments ▸ List.subset_append_left _ _))
    cases hmail : mail.messageId? with
    | none => exact h.refused hd hmail hbrought
    | some id => exact h.accepted hd hmail ht hbrought

theorem Books.strides (h : s.Books keys) (hstrides : s.Strides keys t) (ht : t.Fair keys) :
    t.Books keys := by
  induction hstrides with
  | refl => exact h
  | tail _ hstride ih => exact (ih (hstride.fair ht)).stride hstride ht

theorem Strides.fair (h : s.Strides keys t) (ht : t.Fair keys) : s.Fair keys := by
  induction h with
  | refl => exact ht
  | tail _ hstride ih => exact ih (hstride.fair ht)

theorem books_start (keys : String → Prop) (firstId : Nat) (mailer : σ) :
    (start firstId mailer).Books keys := by
  have hcalls : (start firstId mailer).calls = [] := rfl
  have hnone : ∀ later call earlier, (start firstId mailer).calls ≠ later ++ call :: earlier := by
    intro later call earlier h
    rw [hcalls] at h
    exact absurd h.symm (List.append_ne_nil_of_right_ne_nil later (List.cons_ne_nil call earlier))
  refine ⟨rfl, fun _ _ _ h => absurd h (hnone _ _ _), fun _ _ _ _ h => absurd h (hnone _ _ _),
    fun key c hc => ?_, fun _ _ => ?_, fun _ => ?_, fun key hk => ?_⟩
  · cases hc
  · unfold accepted
    rw [hcalls]
    rfl
  · rw [hcalls]
    rfl
  · cases hk

theorem Books.ordered {policy : RetryPolicy} {scope : Scope} (h : s.Books keys)
    (hordered : s.moments.Pairwise fun later earlier =>
      earlier.world.Course policy scope later.world) :
    s.calls.Pairwise fun later earlier =>
      earlier.moment.world.Course policy scope later.moment.world := by
  exact List.pairwise_map.1 (h.calls_eq.1 ▸ hordered.filter _)

/-- A cursor whose mail was accepted left the step before its next mail was handed over. -/
theorem Books.left (h : s.Books keys) {policy : RetryPolicy} {scope : Scope}
    (hordered : s.moments.Pairwise fun later earlier =>
      earlier.world.Course policy scope later.world)
    {before rest : List Call} {later earlier : Call} (hsplit : s.calls = before ++ later :: rest)
    (hearlier : earlier ∈ rest) (hcall : later.moment.call? = some key)
    (haccepted : earlier.acceptedFor key = true) :
    ∃ c d, earlier.moment.world.cursors.find? key = some c ∧
      later.moment.world.cursors.find? key = some d ∧ c.departures < d.departures := by
  have hpairs := h.ordered hordered
  rw [hsplit] at hpairs
  have hcourse := (List.pairwise_cons.1 (List.pairwise_append.1 hpairs).2.1).1 earlier hearlier
  obtain ⟨d, hd, hdcount⟩ := h.called before later rest key hsplit hcall
  obtain ⟨mid, first, rfl⟩ := List.append_of_mem hearlier
  have hkey : earlier.moment.call? = some key := by
    unfold Call.acceptedFor at haccepted
    rw [Bool.and_eq_true, beq_iff_eq] at haccepted
    exact haccepted.1
  obtain ⟨c, hc, hccount⟩ := h.called (before ++ later :: mid) earlier first key
    (by rw [hsplit, List.append_assoc, List.cons_append]) hkey
  refine ⟨c, d, hc, hd, Cursor.departures_lt (hcourse.history hc hd) ?_⟩
  rw [← hdcount, ← hccount, List.countP_append, List.countP_cons_of_pos haccepted]
  omega

end Session

/-! ## The books agree -/

/-- The sessions that runs of operations come to, whatever the operations answer. The last operation
stands first. -/
inductive Played (svc : Services σ) : List Operation → Session (σ × List Moment) → Prop
  | start (firstId : Nat) (mailer : σ) : Played svc [] (.start firstId mailer)
  | step {ops : List Operation} {s : Session (σ × List Moment)} (op : Operation) :
      Played svc ops s → op.Fresh s.world → Played svc (op :: ops) (op.next svc s)

namespace Played

variable {svc : Services σ} {ops : List Operation} {s : Session (σ × List Moment)}

theorem run (h : Played svc ops s) : Run svc (fun _ => True) s := by
  induction h with
  | start firstId mailer => exact .start firstId mailer
  | step op _ hfresh ih => exact ih.step op hfresh fun _ _ => trivial

theorem books (h : Played svc ops s) {keys : String → Prop}
    (hops : ∀ e now, .ingest e now ∈ ops → e.kind ≠ .sent ∧ keys e.key) (hfair : s.Fair keys) :
    s.Books keys := by
  induction h with
  | start firstId mailer => exact Session.books_start keys firstId mailer
  | @step ops s op _ _ ih =>
    have hstrides : s.Strides keys ((op.perform svc.recording).on s).2 :=
      op.perform_strides (fun e now he => hops e now (he ▸ List.mem_cons_self)) s
    let t := ((op.perform svc.recording).on s).2
    have hdone : t.Fair keys := hfair.before (l := [⟨none, t.world⟩]) rfl (List.Sublist.refl _)
    have hbooks : s.Books keys :=
      ih (fun e now he => hops e now (List.mem_cons_of_mem op he)) (hstrides.fair hdone)
    exact (hbooks.strides hstrides hdone).unmailed (l := [⟨none, t.world⟩]) rfl
      (List.forall_mem_singleton.2 rfl) (.refl t.world)

/-- **The books agree.** In a run in which every mail gets an id of its own, no event of a mail that was
sent comes in and none comes in under the key of a mail, each call of the mailer has its mail. A cursor
whose mail was accepted has left the step when its next mail is handed over. The history and the
counter of a cursor tell of every mail that was accepted for it, but perhaps the last: that one is
missing if the cursor was canceled while it was out. And the totals of a campaign count all mails that
were accepted for its cursors. Counters are taken as far as their width goes. -/
theorem books_agree (h : Played svc ops s) (hkinds : ∀ e now, .ingest e now ∈ ops → e.kind ≠ .sent)
    (hids : s.world.messageIds.Nodup)
    (hkeys : ∀ id ∈ s.world.messageIds, (∀ e now, .ingest e now ∈ ops → e.key ≠ sentKey id) ∧
      ¬ Moment.BringsIn s.moments (sentKey id)) :
    s.calls.map Call.moment = s.moments.filter Moment.isCall ∧
    s.calls.map Call.mail = s.world.submissions ∧
    (∀ before later rest, s.calls = before ++ later :: rest →
      later.moment.world.submissions = rest.map Call.mail ∧
      ∀ earlier ∈ rest, ∀ key, later.moment.call? = some key → earlier.acceptedFor key = true →
      ∃ c d, earlier.moment.world.cursors.find? key = some c ∧
        later.moment.world.cursors.find? key = some d ∧ c.departures < d.departures) ∧
    (∀ key c, s.world.cursors.find? key = some c → s.Agrees key c) ∧
    ∀ campaign, (s.world.statistics.of campaign).sent =
      UInt64.ofNat (s.calls.countP (Call.acceptedIn campaign)) := by
  have hfair : s.Fair fun key => ∀ id ∈ s.world.messageIds, key ≠ sentKey id := by
    refine ⟨fun key hbrought id hid he => ?_, hids, fun id hid h => h id hid rfl⟩
    exact (hkeys id hid).2 (he ▸ hbrought)
  have hbooks := h.books (fun e now he => ⟨hkinds e now he, fun id hid => (hkeys id hid).1 e now he⟩)
    hfair
  obtain ⟨n, hrec⟩ := h.run.recorded
  refine ⟨hbooks.calls_eq.1, hbooks.calls_eq.2, ?_, hbooks.cursors, hbooks.totals⟩
  intro before later rest hsplit
  refine ⟨hbooks.matched before later rest hsplit, ?_⟩
  intro earlier hearlier key hcall haccepted
  exact hbooks.left hrec.ordered hsplit hearlier hcall haccepted

end Played

/-- An engine whose mailer numbers its messages, and whose campaign is canceled while the second one is
out. -/
def Services.halting : Services Nat where
  mailer.send n _ _ := (⟨.ok ("msg-" ++ natText n), if n = 1 then [.cancel (.ofNat 7)] else []⟩, n + 1)
  renderer := Services.plain.renderer
  retry := Services.plain.retry

/-- A lead is enrolled into a flow with a loop, and two days later it is to be reminded. -/
def Operation.reminding : List Operation :=
  [.tick 10 .secondDay, .enroll (.ofNat 7) .ada .epoch, .activate (.ofNat 7) .followUp .epoch]

/-- The run in which the campaign is canceled while the reminder is out. -/
def Session.cutShort : Session (Nat × List Moment) :=
  Operation.reminding.foldr (fun op s => op.next .halting s) (.start 0 0)

namespace Played

theorem cutShort : Played .halting Operation.reminding .cutShort :=
  (((Played.start 0 0).step (.activate (.ofNat 7) .followUp .epoch) rfl).step
    (.enroll (.ofNat 7) .ada .epoch) trivial).step (.tick 10 .secondDay) trivial

/-- Two mails were accepted for the lead, and its history tells of the first alone. -/
theorem books_agree_cutShort :
    Played .halting Operation.reminding .cutShort ∧
    Session.cutShort.world.messageIds = ["msg-1", "msg-0"] ∧
    (Session.cutShort.world.statistics.of (.ofNat 7)).sent = 2 ∧
    ∃ c, Session.cutShort.world.cursors.find? ⟨.ofNat 0, "ada"⟩ = some c ∧ c.sents = 1 ∧
      c.counters.emailsSent = 1 ∧ Session.cutShort.accepted ⟨.ofNat 0, "ada"⟩ = 2 ∧
      Session.cutShort.CanceledInFlight ⟨.ofNat 0, "ada"⟩ := by
  have hids : Session.cutShort.world.messageIds = ["msg-1", "msg-0"] := by decide +kernel
  have hcursor : (Session.cutShort.world.cursors.find? ⟨.ofNat 0, "ada"⟩).map Cursor.sents =
      some 1 := by decide +kernel
  have haccepted : Session.cutShort.accepted ⟨.ofNat 0, "ada"⟩ = 2 := by decide +kernel
  have hcalls : Session.cutShort.calls.countP (Call.acceptedIn (.ofNat 7)) = 2 := by decide +kernel
  have hkeyless : Session.cutShort.moments.filterMap Moment.eventKey? = [] := by decide +kernel
  obtain ⟨-, -, -, hcursors, htotals⟩ := books_agree cutShort
    (fun e now he => by simp [Operation.reminding] at he) (by rw [hids]; decide)
    fun id _ => ⟨fun e now he => by simp [Operation.reminding] at he,
      fun hkey => by unfold Moment.BringsIn at hkey; rw [hkeyless] at hkey; cases hkey⟩
  obtain ⟨c, hc, hsents⟩ := Option.map_eq_some_iff.1 hcursor
  obtain ⟨hcounter, hhistory⟩ := hcursors _ c hc
  refine ⟨cutShort, hids, by rw [htotals, hcalls]; rfl, c, hc, hsents, by rw [hcounter, hsents]; rfl,
    haccepted, ?_⟩
  rw [haccepted, hsents] at hhistory
  exact (hhistory.resolve_left (by decide)).2.2

end Played

end MailCampaign
