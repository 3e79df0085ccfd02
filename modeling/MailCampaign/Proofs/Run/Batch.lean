import MailCampaign.Proofs.Engine.Local
import MailCampaign.Proofs.Run.InTime
import MailCampaign.Proofs.Run.Lineage

/-!
# Batches in any order

A tick and a recovery dispatch a batch of cursors one after another, and stopping a campaign cancels
a batch of them. With a mailer that serves leads separately, and no two cursors of one lead in a
batch, it makes no difference in which order that is done.

1. What a dispatch comes to and does depends on what is seen from its realm. The other dispatches of
   the batch are not seen from there, so it is the same at any place in the batch
   (`dispatchEach_results`, `dispatchEach_on`).
2. The acts of the dispatches are apart, so they lead to alike worlds in any order
   (`World.after_perm`), and alike worlds have the same timers as these are determined by the
   cursors.
3. A time out of range cuts a batch short. Then the order does make a difference
   (`order_matters_far_off`).
-/

namespace MailCampaign

/-- Worlds that are alike and have the same timers. -/
structure World.Matches (w v : World) : Prop extends w.Alike v where
  timers : v.cursors.timers = w.cursors.timers

/-- In worlds in order the timers are those of the cursors. -/
theorem World.Alike.matches {w v : World} (h : w.Alike v) (hw : w.InOrder) (hv : v.InOrder) :
    w.Matches v := ⟨h, hv.indexed.timers_eq hw.indexed h.cursors⟩

namespace Engine

variable {σ τ : Type} {mailer : Mailer σ} {memory : σ → String → τ} {svc : Services σ}
  {trigger : Trigger} {now : Instant} {s t : Session σ} {keys : List CursorKey}

/-- What is done within the realm of a cursor is not seen from that of a cursor of another lead. -/
theorem Does.looks {α : Type} {e : Engine σ α} {key key' : CursorKey} {result : Except Fault α}
    {acts : List Act} {own : τ} (hd : Does memory key e t result acts own)
    (hin : ∀ a ∈ acts, a.Within (mailer.realm key)) (h : mailer.Separate memory)
    (hne : key.leadId ≠ key'.leadId) (ht : s.Looks mailer memory key' t) :
    s.Looks mailer memory key' (e.on t).2 where
  world := by
    rw [hd.world]
    exact ht.world.trans (.of_apart hin (h.apart hne.symm) t.world)
  memory := (hd.others key'.leadId hne.symm).trans ht.memory

/-! ## Dispatches one after another -/

/-- What the dispatch of each key comes to, what it does, and what the mailer remembers of its lead
then, in all sessions that look from the realm of the key like a given one. -/
structure Foresight (svc : Services σ) (memory : σ → String → τ) (trigger : Trigger) (now : Instant)
    (s : Session σ) where
  result : CursorKey → Except Fault (Except Fault Outcome)
  acts : CursorKey → List Act
  own : CursorKey → τ
  within : ∀ key, ∀ a ∈ acts key, a.Within (svc.mailer.realm key)
  does : ∀ key t, s.Looks svc.mailer memory key t →
    Does memory key (kept (dispatch svc key trigger now)) t (result key) (acts key) (own key)

theorem nonempty_foresight (h : svc.mailer.Separate memory) (hr : svc.renderer.Steady memory)
    (trigger : Trigger) (now : Instant) (hs : s.world.leads.Keyed Lead.id) :
    Nonempty (Foresight svc memory trigger now s) := by
  have hlocal : ∀ key, (kept (dispatch svc key trigger now)).Local svc.mailer memory key :=
    fun _ => kept_local (dispatch_local h hr)
  choose result acts own hin hdoes using fun key => hlocal key s hs
  exact ⟨⟨result, acts, own, hin, hdoes⟩⟩

namespace Foresight

variable (f : Foresight svc memory trigger now s)

include f in
/-- After a dispatch the session looks the same from the realm of a cursor of another lead. -/
theorem looks_on (h : svc.mailer.Separate memory) {key key' : CursorKey}
    (hne : key.leadId ≠ key'.leadId) (ht : s.Looks svc.mailer memory key t)
    (ht' : s.Looks svc.mailer memory key' t) :
    s.Looks svc.mailer memory key' ((kept (dispatch svc key trigger now)).on t).2 :=
  (f.does key t ht).looks (f.within key) h hne ht'

/-- A batch that comes to its end comes to what was foreseen. -/
theorem dispatchEach_results (h : svc.mailer.Separate memory)
    (hkeys : keys.Pairwise fun k k' => k.leadId ≠ k'.leadId)
    (ht : ∀ key ∈ keys, s.Looks svc.mailer memory key t) {outcomes : List (Except Fault Outcome)}
    {u : Session σ} (hon : (dispatchEach svc trigger now keys).on t = (.ok outcomes, u)) :
    List.Forall₂ (fun key outcome => f.result key = .ok outcome) keys outcomes := by
  induction keys generalizing t outcomes u with
  | nil =>
    cases hon
    exact .nil
  | cons key rest ih =>
    obtain ⟨hne, hrest⟩ := List.pairwise_cons.1 hkeys
    have htkey := ht key List.mem_cons_self
    have hresult := (f.does key t htkey).result
    have hlooks : ∀ k ∈ rest, s.Looks svc.mailer memory k
        ((kept (dispatch svc key trigger now)).on t).2 :=
      fun k hk => f.looks_on h (hne k hk) htkey (ht k (List.mem_cons_of_mem key hk))
    unfold dispatchEach at hon
    rw [on_bind] at hon
    rcases hone : (kept (dispatch svc key trigger now)).on t with ⟨x | outcome, v⟩ <;>
      rw [hone] at hon hresult hlooks
    · cases hon
    · dsimp only at hon
      rw [on_bind] at hon
      rcases hothers : (dispatchEach svc trigger now rest).on v with ⟨x | others, v'⟩ <;>
        rw [hothers] at hon
      · cases hon
      · cases hon
        exact .cons hresult.symm (ih hrest hlooks hothers)

/-- A batch all of whose dispatches come to an outcome comes to its end, with the acts of all. -/
theorem dispatchEach_on (h : svc.mailer.Separate memory)
    (hkeys : keys.Pairwise fun k k' => k.leadId ≠ k'.leadId)
    (ht : ∀ key ∈ keys, s.Looks svc.mailer memory key t) {outcomes : List (Except Fault Outcome)}
    (hall : List.Forall₂ (fun key outcome => f.result key = .ok outcome) keys outcomes) :
    ∃ u, (dispatchEach svc trigger now keys).on t = (.ok outcomes, u) ∧
      u.world = t.world.after (keys.flatMap f.acts) := by
  induction hall generalizing t with
  | nil => exact ⟨t, rfl, rfl⟩
  | @cons key outcome rest others hresult _ ih =>
    obtain ⟨hne, hrest⟩ := List.pairwise_cons.1 hkeys
    have htkey := ht key List.mem_cons_self
    have hdid := f.does key t htkey
    obtain ⟨u, hon, hu⟩ := ih hrest fun k hk =>
      f.looks_on h (hne k hk) htkey (ht k (List.mem_cons_of_mem key hk))
    have hone : (kept (dispatch svc key trigger now)).on t = (.ok outcome, _) :=
      Prod.ext (hdid.result.trans hresult) rfl
    refine ⟨u, ?_, ?_⟩
    · unfold dispatchEach
      rw [on_bind_ok hone, on_bind_ok hon]
      rfl
    · rw [hu, hdid.world, List.flatMap_cons, World.after_append]

/-- The acts of dispatches for different leads are apart. -/
theorem acts_apart (h : svc.mailer.Separate memory)
    (hkeys : keys.Pairwise fun k k' => k.leadId ≠ k'.leadId) :
    keys.Pairwise fun k k' => ∀ a ∈ f.acts k, ∀ b ∈ f.acts k', a.Apart b :=
  hkeys.imp fun hne a ha b hb => (f.within _ a ha).apart (f.within _ b hb) (h.apart hne)

end Foresight

/-- The report of a batch does not depend on the order of the outcomes. -/
theorem tickReport_perm {outcomes outcomes' : List (Except Fault Outcome)}
    (h : outcomes.Perm outcomes') : tickReport outcomes = tickReport outcomes' := by
  simp only [tickReport, h.length_eq, h.countP_eq]

theorem dispatchEach_inOrder {r : Except Fault (List (Except Fault Outcome))}
    (hs : s.world.InOrder) (hon : (dispatchEach svc trigger now keys).on s = (r, t)) :
    t.world.InOrder := by
  have hposts : s.world.Postings False ((dispatchEach svc trigger now keys).on s).2.world :=
    Keeps.dispatchEach (dispatch_posts trigger) keys s
  rw [hon] at hposts
  exact hposts.inOrder hs

/-- A batch that comes to its end in one order does so in every order, with the same outcomes and in
alike worlds. -/
theorem dispatchEach_perm (h : svc.mailer.Separate memory) (hr : svc.renderer.Steady memory)
    (hs : s.world.leads.Keyed Lead.id) {keys' : List CursorKey} (hperm : keys.Perm keys')
    (hkeys : keys.Pairwise fun k k' => k.leadId ≠ k'.leadId)
    {outcomes : List (Except Fault Outcome)}
    (hon : (dispatchEach svc trigger now keys).on s = (.ok outcomes, t)) :
    ∃ outcomes' t', (dispatchEach svc trigger now keys').on s = (.ok outcomes', t') ∧
      outcomes.Perm outcomes' ∧ t.world.Alike t'.world := by
  obtain ⟨f⟩ := nonempty_foresight h hr trigger now hs
  have hself : ∀ key, s.Looks svc.mailer memory key s := fun key => .refl _ _ key s
  have hresults := f.dispatchEach_results h hkeys (fun key _ => hself key) hon
  obtain ⟨u, hon', hu⟩ := f.dispatchEach_on h hkeys (fun key _ => hself key) hresults
  obtain rfl : t = u := (Prod.mk.inj (hon.symm.trans hon')).2
  obtain ⟨outcomes', hresults', hperm'⟩ := List.perm_comp_forall₂ hperm.symm hresults
  have hkeys' := hperm.pairwise hkeys Ne.symm
  obtain ⟨t', hont', ht'⟩ := f.dispatchEach_on h hkeys' (fun key _ => hself key) hresults'
  refine ⟨outcomes', t', hont', hperm'.symm, ?_⟩
  rw [hu, ht']
  exact World.after_perm hperm (f.acts_apart h hkeys) s.world

end Engine

/-! ## Cancellations one after another -/

/-- The realm of a cursor that neither counts nor mails. -/
def Realm.alone (key : CursorKey) : Realm := ⟨key, fun _ => False, fun _ => False⟩

theorem Realm.alone_apart {key key' : CursorKey} (h : key ≠ key') :
    (Realm.alone key).Apart (.alone key') := ⟨h, fun _ => False.elim, fun _ => False.elim⟩

namespace Change

variable {key : CursorKey} {c : Cursor} {w v : World} (reason : String) (now : Instant)

/-- The acts by which a cursor is canceled. -/
def cancelActs (c : Cursor) : List Act :=
  if c.state.terminal then [.stored c c]
  else [.stored c (canceled reason now c), .ended c.campaignId .canceled,
    .told (c.activity (.canceled reason) c.nodeId now)]

theorem cancel_on (hc : w.cursors.find? key = some c) :
    (cancel key reason now).on w = (.ok !c.state.terminal, w.after (cancelActs reason now c)) := by
  unfold cancel cancelActs
  rw [on_bind_ok (on_cursor_some hc)]
  cases c.state.terminal with
  | true => rfl
  | false => rfl

/-- Canceling touches the cursor alone. -/
theorem cancelActs_within (c : Cursor) :
    ∀ a ∈ cancelActs reason now c, a.Within (.alone c.key) := by
  unfold cancelActs
  split
  · simp [Act.Within, Realm.alone]
  · simp [Act.Within, Realm.alone, canceled, Cursor.key, Cursor.log, Cursor.release]

/-- The acts by which the cursor that a world has under a key is canceled. -/
def cancelActsAt (w : World) (key : CursorKey) : List Act :=
  (w.cursors.find? key).elim [] (cancelActs reason now)

theorem cancelActsAt_within (w : World) (key : CursorKey) :
    ∀ a ∈ cancelActsAt reason now w key, a.Within (.alone key) := by
  unfold cancelActsAt
  cases hc : w.cursors.find? key with
  | none => exact List.forall_mem_nil _
  | some c =>
    obtain rfl := CursorStore.key_eq_of_find? hc
    exact cancelActs_within reason now c

/-- Canceling a batch cancels each cursor as it was before. -/
theorem cancelAll_on {keys : List CursorKey} (hnd : keys.Nodup)
    (hk : ∀ key ∈ keys, ∃ c, w.cursors.find? key = some c ∧ v.cursors.find? key = some c) :
    (cancelAll reason now keys).on v =
      (.ok (keys.countP fun key => (w.cursors.find? key).any fun c => !c.state.terminal),
        v.after (keys.flatMap (cancelActsAt reason now w))) := by
  induction keys generalizing v with
  | nil => rfl
  | cons key rest ih =>
    obtain ⟨hnot, hnd⟩ := List.nodup_cons.1 hnd
    obtain ⟨c, hw, hv⟩ := hk key List.mem_cons_self
    have hacts : cancelActsAt reason now w key = cancelActs reason now c := by
      rw [cancelActsAt, hw]
      rfl
    have hrest : ∀ k ∈ rest, ∃ c', w.cursors.find? k = some c' ∧
        (v.after (cancelActs reason now c)).cursors.find? k = some c' := by
      intro k hmem
      obtain ⟨c', hw', hv'⟩ := hk k (List.mem_cons_of_mem key hmem)
      have hne : k ≠ key := fun h => hnot (h ▸ hmem)
      have hlooks : v.Looks (.alone k) (v.after (cancelActs reason now c)) :=
        .of_apart (hacts ▸ cancelActsAt_within reason now w key) (Realm.alone_apart hne) v
      exact ⟨c', hw', hlooks.cursor.trans hv'⟩
    unfold cancelAll
    rw [on_bind_ok (cancel_on reason now hv), on_bind_ok (ih hnd hrest), List.flatMap_cons, hacts,
      World.after_append, List.countP_cons, hw]
    rfl

/-- Stored cursors may be canceled in any order. -/
theorem cancelAll_perm {keys keys' : List CursorKey} (hperm : keys.Perm keys') (hnd : keys.Nodup)
    (hk : ∀ key ∈ keys, ∃ c, w.cursors.find? key = some c) :
    ∃ n v u, (cancelAll reason now keys).on w = (.ok n, v) ∧
      (cancelAll reason now keys').on w = (.ok n, u) ∧ v.Alike u := by
  have hstored : ∀ key ∈ keys, ∃ c, w.cursors.find? key = some c ∧ w.cursors.find? key = some c :=
    fun key hmem => (hk key hmem).imp fun c hc => ⟨hc, hc⟩
  have hon := cancelAll_on reason now hnd hstored
  have hon' := cancelAll_on reason now (hperm.nodup_iff.1 hnd)
    fun key hmem => hstored key (hperm.mem_iff.2 hmem)
  rw [← hperm.countP_eq] at hon'
  refine ⟨_, _, _, hon, hon', World.after_perm hperm ?_ w⟩
  exact hnd.imp fun hne a ha b hb => (cancelActsAt_within reason now w _ a ha).apart
    (cancelActsAt_within reason now w _ b hb) (Realm.alone_apart hne)

theorem cancelAll_inOrder {keys : List CursorKey} {r : Except Fault Nat} (hw : w.InOrder)
    (hon : (cancelAll reason now keys).on w = (r, v)) : v.InOrder := by
  have hposts : w.Postings False ((cancelAll reason now keys).on w).2 :=
    Keeps.cancelAll (fun _ => cancel_posts) keys w
  rw [hon] at hposts
  exact hposts.inOrder hw

end Change

theorem CursorStore.nodup_keysWhere (s : CursorStore) (p : Cursor → Bool) : (s.keysWhere p).Nodup :=
  s.cursors.distinct.sublist (List.filter_sublist.map Prod.fst)

/-! ## The order of a batch -/

variable {σ τ : Type} {svc : Services σ} {memory : σ → String → τ} {w : World}

/-- **The order of a batch makes no difference.** In every reachable world, with a mailer that serves leads
separately and a steady typesetter, a batch in which no two cursors share a lead comes to the same in all
orders, as long as in one order no time is out of range. The cursors of a campaign may be canceled
in any order without more ado. -/
theorem World.Reachable.any_order (hw : w.Reachable) (h : svc.mailer.Separate memory)
    (hr : svc.renderer.Steady memory) :
    (∀ (m : σ) (trigger : Trigger) (now : Instant) (keys keys' : List CursorKey)
      (outcomes : List (Except Fault Outcome)) (t : Session σ), keys.Perm keys' →
      (keys.map CursorKey.leadId).Nodup →
      (Engine.dispatchEach svc trigger now keys).on ⟨w, m⟩ = (.ok outcomes, t) →
      ∃ outcomes' t', (Engine.dispatchEach svc trigger now keys').on ⟨w, m⟩ = (.ok outcomes', t') ∧
        outcomes.Perm outcomes' ∧ Engine.tickReport outcomes = Engine.tickReport outcomes' ∧
        t.world.Matches t'.world) ∧
    ∀ (campaign : Uuid) (status : CampaignStatus) (reason : String) (now : Instant)
      (keys : List CursorKey), (w.cursors.ofCampaign campaign).Perm keys →
      ∃ n v u,
        (Change.cancelRunning campaign reason now).on (w.setStatus campaign status) = (.ok n, v) ∧
        (Change.cancelAll reason now keys).on (w.setStatus campaign status) = (.ok n, u) ∧
        v.Matches u := by
  have horder := hw.inOrder
  refine ⟨fun m trigger now keys keys' outcomes t hperm hleads hon => ?_,
    fun campaign status reason now keys hperm => ?_⟩
  · obtain ⟨outcomes', t', hon', houtcomes, halike⟩ :=
      Engine.dispatchEach_perm h hr horder.leads hperm (List.pairwise_map.1 hleads) hon
    exact ⟨outcomes', t', hon', houtcomes, Engine.tickReport_perm houtcomes,
      halike.matches (Engine.dispatchEach_inOrder horder hon)
        (Engine.dispatchEach_inOrder horder hon')⟩
  · let stopped := w.setStatus campaign status
    have hset : stopped.InOrder := ⟨horder.indexed, horder.leads⟩
    have hk : ∀ key ∈ stopped.cursors.ofCampaign campaign,
        ∃ c, stopped.cursors.find? key = some c :=
      fun key hmem => (CursorStore.mem_keysWhere.1 hmem).imp fun c hc => hc.1
    obtain ⟨n, v, u, hon, hon', halike⟩ := Change.cancelAll_perm (w := stopped) reason now hperm
      (CursorStore.nodup_keysWhere _ _) hk
    exact ⟨n, v, u, hon, hon', halike.matches (Change.cancelAll_inOrder reason now hset hon)
      (Change.cancelAll_inOrder reason now hset hon')⟩

/-! ## A mailer that serves leads separately -/

/-- The mailer that answers with the id of the lead, and remembers the leads that it had mail for.
-/
def Mailer.naming : Mailer (List String) where
  send leads lead _ := (⟨.ok lead.id, []⟩, lead.id :: leads)

theorem Mailer.separate_naming : Mailer.naming.Separate fun leads leadId => leads.count leadId where
  quiet := fun _ _ _ => rfl
  look := fun _ _ _ => rfl
  result := fun _ _ _ _ _ => rfl
  own := fun s t lead _ h => by
    show (lead.id :: s).count lead.id = (lead.id :: t).count lead.id
    rw [List.count_cons_self, List.count_cons_self, h]
  others := fun s lead _ leadId h => List.count_cons_of_ne h.symm
  distinct := by
    rintro id _ _ ⟨_, lead, _, rfl, h⟩ ⟨_, lead', _, rfl, h'⟩
    exact (Except.ok.inj h).trans (Except.ok.inj h').symm

/-- An engine with that mailer and the settings by default. -/
def Services.naming : Services (List String) :=
  ⟨.naming, .ofTable .empty, Services.standard.retry⟩

/-- Two leads wait for two days in the same flow. -/
def Session.pair : Session (Nat × List Moment) :=
  (Operation.enroll (.ofNat 7) .ben .epoch).next .plain .enrolled

theorem World.Reachable.any_order_pair :
    Session.pair.world.cursors.due .secondDay 2 = [⟨.ofNat 0, "ada"⟩, ⟨.ofNat 0, "ben"⟩] ∧
    (∃ outcomes t outcomes' t',
      (Engine.dispatchEach .naming .timer .secondDay
        [⟨.ofNat 0, "ada"⟩, ⟨.ofNat 0, "ben"⟩]).on ⟨Session.pair.world, []⟩ = (.ok outcomes, t) ∧
      (Engine.dispatchEach .naming .timer .secondDay
        [⟨.ofNat 0, "ben"⟩, ⟨.ofNat 0, "ada"⟩]).on ⟨Session.pair.world, []⟩ = (.ok outcomes', t') ∧
      (Engine.tickReport outcomes').fired = 2 ∧ (t'.world.mailsTo "ben").length = 2 ∧
      t.world.Matches t'.world) ∧
    ∃ n v u,
      (Change.cancelRunning (.ofNat 7) "campaign paused" .secondDay).on
        (Session.pair.world.setStatus (.ofNat 7) .paused) = (.ok n, v) ∧
      (Change.cancelAll "campaign paused" .secondDay
        [⟨.ofNat 0, "ben"⟩, ⟨.ofNat 0, "ada"⟩]).on
        (Session.pair.world.setStatus (.ofNat 7) .paused) = (.ok n, u) ∧ v.Matches u := by
  let ada : CursorKey := ⟨.ofNat 0, "ada"⟩
  let ben : CursorKey := ⟨.ofNat 0, "ben"⟩
  have hrun : Run .plain (fun _ => True) .pair :=
    (run_enrolled fun _ => True).succeed (.enroll (.ofNat 7) .ben .epoch) trivial
      (by decide +kernel)
  have hseparate : Services.naming.mailer.Separate fun leads leadId => leads.count leadId :=
    Mailer.separate_naming
  have hsteady : Services.naming.renderer.Steady fun leads leadId => leads.count leadId :=
    Renderer.steady _ _
  obtain ⟨hdispatch, hcancel⟩ := any_order hrun.reachable hseparate hsteady
  have hdue : Session.pair.world.cursors.due .secondDay 2 = [ada, ben] := by decide +kernel
  let ticked := (Engine.dispatchEach .naming .timer .secondDay [ada, ben]).on
    ⟨Session.pair.world, []⟩
  have hfired : ticked.1.toOption.map (fun outcomes => (Engine.tickReport outcomes).fired) =
      some 2 := by decide +kernel
  have hmails : (ticked.2.world.mailsTo "ben").length = 2 := by decide +kernel
  refine ⟨hdue, ?_, hcancel (.ofNat 7) .paused _ _ [ben, ada] ?_⟩
  · rcases hon : ticked with ⟨x | outcomes, t⟩ <;> rw [hon] at hfired hmails
    · cases hfired
    · obtain ⟨outcomes', t', hon', -, hreport, hmatches⟩ := hdispatch [] .timer .secondDay
        [ada, ben] [ben, ada] outcomes t (.swap ben ada []) (by decide) hon
      refine ⟨outcomes, t, outcomes', t', hon, hon', ?_, ?_, hmatches⟩
      · rw [← hreport]
        exact Option.some.inj hfired
      · rw [hmatches.mails]
        exact hmails
  · have hbatch : Session.pair.world.cursors.ofCampaign (.ofNat 7) = [ada, ben] := by
      decide +kernel
    rw [hbatch]
    exact .swap ben ada []

/-! ## A batch that is cut short -/

/-- A wait of a day, then one for as many days as can be written, then a goal. -/
def Document.farOffLater : Document where
  nodes := [⟨"day", .delay ⟨1, .days⟩⟩, ⟨"wait", .delay ⟨4294967295, .days⟩⟩,
    ⟨"won", .goal ⟨.conversion, none⟩⟩]
  edges := [{ id := "a", source := "day", target := "wait" },
    { id := "b", source := "wait", target := "won" }]

/-- A wait of a day and an hour, then a goal. -/
def Document.nextDay : Document where
  nodes := [⟨"day", .delay ⟨25, .hours⟩⟩, ⟨"won", .goal ⟨.conversion, none⟩⟩]
  edges := [{ id := "a", source := "day", target := "won" }]

/-- The first flow is active. -/
def Session.laterFlow : Session (Nat × List Moment) :=
  (Operation.activate (.ofNat 7) .farOffLater .epoch).next .standard (.start 0 0)

/-- Both flows are active. -/
def Session.twoFlows : Session (Nat × List Moment) :=
  (Operation.activate (.ofNat 8) .nextDay .epoch).next .standard .laterFlow

/-- A lead waits in each of them. -/
def Session.twoWaits : Session (Nat × List Moment) :=
  (Operation.enroll (.ofNat 8) .ben .epoch).next .standard
    ((Operation.enroll (.ofNat 7) .ada .epoch).next .standard .twoFlows)

/-- The state of the second lead after a batch. -/
def Session.benAfter (keys : List CursorKey) : Option CursorState :=
  (((Engine.dispatchEach .naming .timer .secondDay keys).on
    ⟨Session.twoWaits.world, []⟩).2.world.cursors.find? ⟨.ofNat 1, "ben"⟩).map Cursor.state

/-- Two leads are due together, and no operation so far ended in a fault. The first comes upon a
time out of range. If it has its turn first, the second has none and waits on; in the other order
the second reaches its goal. -/
theorem Engine.order_matters_far_off :
    Run .standard (fun _ => False) .twoWaits ∧
    Mailer.naming.Separate (fun leads leadId => leads.count leadId) ∧
    Session.twoWaits.world.cursors.due .secondDay 2 = [⟨.ofNat 0, "ada"⟩, ⟨.ofNat 1, "ben"⟩] ∧
    ((dispatchEach .naming .timer .secondDay [⟨.ofNat 0, "ada"⟩, ⟨.ofNat 1, "ben"⟩]).on
      ⟨Session.twoWaits.world, []⟩).1 = .error .outOfRange ∧
    Session.benAfter [⟨.ofNat 0, "ada"⟩, ⟨.ofNat 1, "ben"⟩] = some .waitingDelay ∧
    Session.benAfter [⟨.ofNat 1, "ben"⟩, ⟨.ofNat 0, "ada"⟩] = some .goalReached := by
  have hfirst : Run .standard (fun _ => False) .laterFlow :=
    (Run.start 0 0).succeed (.activate (.ofNat 7) .farOffLater .epoch) rfl (by decide +kernel)
  have hflows : Run .standard (fun _ => False) .twoFlows :=
    hfirst.succeed (.activate (.ofNat 8) .nextDay .epoch)
      (Option.isNone_iff_eq_none.1 (by decide +kernel)) (by decide +kernel)
  have hwaits : Run .standard (fun _ => False) .twoWaits :=
    (hflows.succeed (.enroll (.ofNat 7) .ada .epoch) trivial (by decide +kernel)).succeed
      (.enroll (.ofNat 8) .ben .epoch) trivial (by decide +kernel)
  refine ⟨hwaits, Mailer.separate_naming, ?_⟩
  decide +kernel

end MailCampaign
