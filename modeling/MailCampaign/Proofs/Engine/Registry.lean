import MailCampaign.Proofs.Engine.Ingest
import MailCampaign.Proofs.Engine.Rounds
import MailCampaign.Proofs.World.Registry
import MailCampaign.Proofs.World.Tidy

/-!
# The engine and its registries of keys

Where the versions of all cursors are known, taking in an event fails only when a time is out of range.
So a key that is let in is settled when the event was taken in, also if a lead unsubscribes while a
mailer is at work, and deeds of every kind uphold the registries.
-/

namespace MailCampaign

variable {σ : Type}

/-! ## Faults -/

/-- A running cursor may always fail. -/
theorem Change.on_fail {w : World} {c : Cursor} (hc : w.cursors.find? c.key = some c)
    (hr : c.state.terminal = false) (reason : String) (now : Instant) :
    ((fail c.key reason now).on w).1 = .ok (.finished .failed) := by
  have hpermit : permit c .failed { (c.log "cursor" "failed" .failed now).release with
      failure := some reason } = .ok _ := if_pos (mayBecome_of_running hr (.inr rfl))
  unfold fail
  rw [on_bind_ok (revise_ok hc hpermit)]
  rfl

/-- Stopping a lead always succeeds. -/
theorem Change.on_haltLead (e : Engagement) (now : Instant) (w : World) :
    ∃ report v, (haltLead e now).on w = (.ok report, v) := by
  have hstored : ∀ key ∈ w.cursors.running e.leadId, ∃ c, w.cursors.find? key = some c := by
    intro key hkey
    obtain ⟨c, hc, -⟩ := (Option.any_eq_true _ _).1 (List.mem_filter.1 hkey).2
    exact ⟨c, hc⟩
  obtain ⟨n, v, hon, -⟩ := cancelAll_stored Services.plain.retry .idle ("lead " ++ e.kind.name) now
    hstored
  unfold haltLead
  rw [on_bind_ok (on_get w), on_bind_ok hon]
  exact ⟨_, v, rfl⟩

namespace Engine

variable {svc : Services σ} {key : CursorKey} {c : Cursor} {g : Graph} {trigger : Trigger}
  {e : Engagement} {now : Instant} {s t : Session σ} {x : Fault}

/-- A step of a cursor in a known version fails only when a time is out of range. -/
theorem execute_fault (hc : s.world.cursors.find? key = some c)
    (hg : s.world.flows.find? key.flowId = some g)
    (hst : s.world.status c.campaignId = .active)
    (hx : ((execute svc g key trigger now).on s).1 = .error x) : x = .outOfRange := by
  obtain rfl := CursorStore.key_eq_of_find? hc
  unfold execute at hx
  rw [on_bind_ok (on_cursor_some hc)] at hx
  cases hr : c.state.terminal with
  | true =>
    rw [hr, if_pos rfl] at hx
    cases hx
  | false =>
    rw [hr, if_neg Bool.false_ne_true] at hx
    cases hn : g.node? c.nodeId with
    | none =>
      rw [hn] at hx
      dsimp only at hx
      rw [on_lift, Change.on_fail hc hr] at hx
      cases hx
    | some node =>
      have hsteps : (perform svc g c node trigger now).Steps svc (.one c.key) c.key
          (g.Onward c.nodeId trigger) (c.LeftBy trigger) node.mailCount s :=
        perform_steps trigger rfl id hc ⟨hg, hn⟩ hr hst
      have hlands := hsteps.lands
      rw [hn] at hx
      dsimp only at hx
      rw [on_ignoreClash] at hx
      rcases hp : (perform svc g c node trigger now).on s with ⟨r, u⟩
      rw [hp] at hx hlands
      cases hlands with
      | outOfRange => exact (Except.error.inj hx).symm
      | moved => cases hx
      | rests => cases hx
      | clash => cases hx

theorem dispatchOnce_fault (hc : s.world.cursors.find? key = some c)
    (hg : s.world.flows.find? key.flowId = some g)
    (hx : ((dispatchOnce svc key trigger now).on s).1 = .error x) : x = .outOfRange := by
  unfold dispatchOnce at hx
  rw [on_bind_ok (on_cursor_some hc), on_bind_ok (on_world s)] at hx
  split at hx
  · cases hx
  split at hx
  · obtain ⟨b, v, hon, -⟩ := Change.cancel_stored svc.retry .idle "campaign halted" now hc
    have hcancel : (discard (liftM (Change.cancel key "campaign halted" now)) :
        Engine σ PUnit).on s = (.ok ⟨⟩, { s with world := v }) := by
      rw [on_discard, on_lift, hon]; rfl
    rw [on_bind_ok hcancel] at hx
    cases hx
  · next hhalts =>
    have hneed : (liftM (Change.need (.missing (.flowVersion key.flowId))
        (s.world.flows.find? key.flowId)) : Engine σ Graph).on s = (.ok g, s) := by
      rw [on_lift, hg, Change.on_need_some]
    rw [on_bind_ok hneed] at hx
    exact execute_fault hc hg (active_of_not_halts (Bool.not_eq_true _ ▸ hhalts)) hx

/-- A cursor is stored and its version is known. -/
def Served (w : World) (key : CursorKey) : Prop :=
  (∃ c, w.cursors.find? key = some c) ∧ ∃ g, w.flows.find? key.flowId = some g

theorem Served.trail {scope : Scope} (h : Served s.world key) (ht : s.Trail svc scope t) :
    Served t.world key := by
  obtain ⟨⟨c, hc⟩, g, hg⟩ := h
  obtain ⟨d, hd, -⟩ := ht.course.stored hc
  exact ⟨⟨d, hd⟩, g, ht.course.grows _ _ hg⟩

theorem dispatchSteps_fault (h : Served s.world key) (n : Nat)
    (hx : ((dispatchSteps svc key now n trigger).on s).1 = .error x) : x = .outOfRange := by
  induction n generalizing s trigger with
  | zero => cases hx
  | succ n ih =>
    have hfollows : s.Trail svc (.one key) ((dispatchOnce svc key trigger now).on s).2 :=
      dispatchOnce_follows key trigger now s
    rcases hr : (dispatchOnce svc key trigger now).on s with ⟨r, t⟩
    rw [hr] at hfollows
    by_cases hmoved : r = .ok .moved
    · subst hmoved
      rw [dispatchSteps_again hr] at hx
      exact ih (h.trail hfollows) hx
    · rw [dispatchSteps_last hr hmoved] at hx
      obtain ⟨⟨c, hc⟩, g, hg⟩ := h
      exact dispatchOnce_fault hc hg (by rw [hr]; exact hx)

theorem dispatch_fault (h : Served s.world key)
    (hx : ((dispatch svc key trigger now).on s).1 = .error x) : x = .outOfRange := by
  unfold dispatch at hx
  rw [on_bind_ok (on_world s)] at hx
  exact dispatchSteps_fault h _ hx

theorem routeTo_fault {keys : List CursorKey} (h : ∀ key ∈ keys, Served s.world key)
    (hx : ((routeTo svc e now keys).on s).1 = .error x) : x = .outOfRange := by
  induction keys generalizing s with
  | nil => cases hx
  | cons key rest ih =>
    have hkey := h key List.mem_cons_self
    have hfollows : s.Trail svc (.one key) ((dispatch svc key (.event e) now).on s).2 :=
      dispatch_follows key (.event e) now s
    unfold routeTo at hx
    rcases hr : (dispatch svc key (.event e) now).on s with ⟨y | o, t⟩ <;> rw [hr] at hfollows
    · rw [on_bind_error hr] at hx
      obtain rfl : y = x := Except.error.inj hx
      exact dispatch_fault hkey (by rw [hr])
    · rw [on_bind_ok hr] at hx
      have hrest : ∀ k ∈ rest, Served t.world k :=
        fun k hk => (h k (List.mem_cons_of_mem _ hk)).trail hfollows
      rcases hr' : (routeTo svc e now rest).on t with ⟨y | n, u⟩
      · rw [on_bind_error hr'] at hx
        obtain rfl : y = x := Except.error.inj hx
        exact ih hrest (by rw [hr'])
      · rw [on_bind_ok hr'] at hx
        cases hx

theorem onward_fault (hw : s.world.Versioned) (hx : ((onward svc e now).on s).1 = .error x) :
    x = .outOfRange := by
  unfold onward at hx
  split at hx
  · obtain ⟨report, v, hon⟩ := Change.on_haltLead e now s.world
    rw [on_lift, hon] at hx
    cases hx
  unfold route at hx
  rw [on_bind_ok (on_world s)] at hx
  split at hx
  · cases hx
  -- Only stored cursors are routed to, and their versions are known.
  have hserved : ∀ key ∈ s.world.cursors.awaiting e, Served s.world key := by
    intro key hkey
    obtain ⟨c, hc, -⟩ := (Option.any_eq_true _ _).1 (List.mem_filter.1 hkey).2
    have hversion := hw key c hc
    rw [World.at?, Option.isSome_map] at hversion
    have hflow : c.flowId = key.flowId := congrArg CursorKey.flowId (CursorStore.key_eq_of_find? hc)
    exact ⟨⟨c, hc⟩, hflow ▸ Option.isSome_iff_exists.1 hversion⟩
  rcases hr : (routeTo svc e now (s.world.cursors.awaiting e)).on s with ⟨y | n, u⟩
  · rw [on_bind_error hr] at hx
    obtain rfl : y = x := Except.error.inj hx
    exact routeTo_fault hserved (by rw [hr])
  · rw [on_bind_ok hr] at hx
    cases hx

/-! ## Taking in -/

variable {report : IngestReport} {seen : SeenKeys} {own : String → Prop} {kept : Instant → Prop}
  {mails interrupted : Prop}

/-- What is sent on its way is no duplicate. -/
theorem onward_report (h : ((onward svc e now).on s).1 = .ok report) : report.duplicate = false := by
  unfold onward at h
  split at h
  · unfold Change.haltLead at h
    rw [on_lift, Change.on_bind_ok (Change.on_get _), Change.on_bind] at h
    split at h
    · exact Except.ok.inj h ▸ rfl
    · cases h
  · unfold route at h
    rw [on_bind_ok (on_world s)] at h
    split at h
    · exact Except.ok.inj h ▸ rfl
    · rw [on_bind] at h
      split at h
      · exact Except.ok.inj h ▸ rfl
      · cases h

/-- An event is turned away, as its key was let in before, or it is counted, goes on its way and has
its key settled. -/
theorem ingest_cases (h : (ingest svc e now).on s = (.ok report, t)) :
    report.duplicate = true ∧ t = s ∨
      ∃ seen u, s.world.seen.receive e.key now = some seen ∧ report.duplicate = false ∧
        (onward svc e now).on { s with world := ({ s.world with seen } : World).count e none now } =
          (.ok report, u) ∧
        t = { u with world := ((Change.settle e.key).on u.world).2 } := by
  cases hseen : s.world.seen.receive e.key now with
  | none =>
    obtain ⟨a, ha⟩ := SeenKeys.receive_eq_none_iff.1 hseen
    rw [on_ingest_seen ha] at h
    cases h
    exact .inl ⟨rfl, rfl⟩
  | some seen =>
    rw [on_ingest_new hseen, on_process] at h
    refine .inr ⟨seen, ?_⟩
    rcases hr : (onward svc e now).on
      { s with world := ({ s.world with seen } : World).count e none now } with ⟨x | r, u⟩ <;>
      rw [hr] at h
    · cases h
    · cases h
      exact ⟨u, rfl, onward_report (by rw [hr]), rfl, rfl⟩

/-- An event is taken in unless a time is out of range, and only those whose key was let in before are
called duplicates. -/
theorem ingest_ok (svc : Services σ) (e : Engagement) (now : Instant) (hw : s.world.Tidy)
    (hfaults : ∀ x, ((ingest svc e now).on s).1 = .error x → x ≠ .outOfRange) :
    ∃ report t, (ingest svc e now).on s = (.ok report, t) ∧
      report.duplicate = (s.world.seen.table.find? e.key).isSome := by
  cases hkey : s.world.seen.table.find? e.key with
  | some a => exact ⟨_, s, on_ingest_seen hkey svc now, rfl⟩
  | none =>
    obtain ⟨seen, hseen⟩ := SeenKeys.receive_of_fresh hkey now
    let w : World := { s.world with seen }
    have hpostings : w.Postings False (w.count e none now) := World.count_postings e w none now
    have htidy := hpostings.tidy ⟨hw.listed, hw.numbered, hw.indexed, hw.leads, hw.versioned⟩
    rw [on_ingest_new hseen, on_process] at hfaults ⊢
    rcases hr : (onward svc e now).on { s with world := w.count e none now } with ⟨x | r, u⟩ <;>
      rw [hr] at hfaults
    · exact absurd (onward_fault htidy.versioned (s := { s with world := w.count e none now })
        (by rw [hr])) (hfaults x rfl)
    · exact ⟨r, _, rfl, onward_report (by rw [hr])⟩

/-- Taking an event in upholds the registries, as long as what is done on its way does. -/
theorem ingest_upholds_of
    (honward : ∀ r : Session σ, r.world.Upholds own kept ((onward svc e now).on r).2.world)
    (h : (ingest svc e now).on s = (.ok report, t)) : s.world.Upholds own kept t.world := by
  obtain ⟨-, rfl⟩ | ⟨seen, u, hseen, -, hon, rfl⟩ := ingest_cases h
  · exact refl_of (World.Upholds own kept) _
  · obtain ⟨hcounted, -, hpending⟩ := World.retains_counted own kept hseen
    have hway := honward { s with world := ({ s.world with seen } : World).count e none now }
    rw [hon] at hway
    obtain ⟨hsettled, hnone⟩ := u.world.retains_settle own kept e.key
    exact ⟨trans_of _ hcounted (trans_of _ hway.toRetains hsettled),
      fun pending hw => hnone pending (hway.settled _ (hpending pending hw))⟩

/-- An event that stops its lead is always taken in. -/
theorem ingest_halting (he : e.haltsLead = true) (svc : Services σ) (now : Instant)
    (s : Session σ) :
    ∃ report t, (ingest svc e now).on s = (.ok report, t) := by
  cases hseen : s.world.seen.receive e.key now with
  | none =>
    obtain ⟨a, ha⟩ := SeenKeys.receive_eq_none_iff.1 hseen
    exact ⟨_, s, on_ingest_seen ha svc now⟩
  | some seen =>
    let w : World := { s.world with seen }
    obtain ⟨report, v, hon⟩ := Change.on_haltLead e now (w.count e none now)
    have hway : (onward svc e now).on { s with world := w.count e none now } =
        (.ok report, { s with world := v }) := by
      rw [onward, if_pos he, on_lift, hon]
    rw [on_ingest_new hseen, on_process, hway]
    exact ⟨report, _, rfl⟩

/-! ## Counting -/

theorem unwatched_sent : Unwatched .sent := fun _ => rfl

/-- On its way an event is not counted again, nor is one of its kind. -/
theorem onward_steady : (onward svc e now).Keeps (Session.Worlds (World.Steady e.kind)) := by
  intro s
  have hhand : ∀ (w : World) mail, w.Steady e.kind (w.emit (.submission mail)) :=
    fun _ _ => World.steady_of_eq rfl
  unfold onward
  split
  · have hhalt : s.Deeds svc False False ((liftM (Change.haltLead e now) :
        Engine σ IngestReport).on s).2 := deeds_lift Change.haltLead_deeds s
    exact hhalt.keeps (fun _ _ h => h.steady_uninterrupted fun _ => not_false) hhand
  · next hhalts =>
    by_cases hsent : e.kind = .sent
    -- No condition listens for mails that were sent, so no mail goes out for one.
    · have hroute : s.Deeds svc False False ((route svc e now).on s).2 :=
        route_unwatched (hsent ▸ unwatched_sent) s
      exact hroute.keeps (fun _ _ h => h.steady_uninterrupted fun _ => not_false) hhand
    · have hkind : e.kind ≠ .unsubscribed := by
        intro he
        rw [Engagement.haltsLead, he] at hhalts
        exact hhalts rfl
      have hroute : s.Deeds svc True True ((route svc e now).on s).2 :=
        route_deeds trivial (.inr trivial) e now s
      exact hroute.keeps (fun _ _ h => h.steady (fun he => absurd he hsent)
        fun he => absurd he hkind) hhand

/-- An event whose key was not counted is counted once when it has gone on its way. -/
theorem onward_counted (svc : Services σ) (seen : SeenKeys)
    (happlied : s.world.statistics.applied.find? e.key = none) :
    s.world.CountedOnce e now ((onward svc e now).on
      { s with world := ({ s.world with seen } : World).count e none now }).2.world := by
  let w : World := { s.world with seen }
  have hcounted : s.world.CountedOnce e now (w.count e none now) := by
    have hcount : w.CountedOnce e now (w.count e none now) :=
      World.countedOnce_count (w := w) happlied none now
    exact ⟨hcount.before, hcount.after, hcount.number⟩
  exact hcounted.of_steady (onward_steady { s with world := w.count e none now })

/-- An event that is taken in is counted once if the registries agreed on its key. -/
theorem ingest_counted (h : (ingest svc e now).on s = (.ok report, t))
    (hnew : report.duplicate = false) (hagree : s.world.AgreesOn e.key) :
    s.world.CountedOnce e now t.world := by
  obtain ⟨hdup, -⟩ | ⟨seen, u, hseen, -, hon, rfl⟩ := ingest_cases h
  · rw [hnew] at hdup
    cases hdup
  have happlied : s.world.statistics.applied.find? e.key = none := by
    rw [World.AgreesOn, SeenKeys.fresh_of_receive hseen] at hagree
    exact hagree
  have hway : s.world.CountedOnce e now ((onward svc e now).on
      { s with world := ({ s.world with seen } : World).count e none now }).2.world :=
    onward_counted svc seen happlied
  rw [hon] at hway
  exact hway.of_steady (World.steady_of_eq (u.world.settle_frame e.key).2.1)

end Engine

/-! ## Deeds from outside -/

/-- All that is done while cursors are dispatched upholds the registries, also as leads unsubscribe. -/
theorem World.Deed.upholds {own : String → Prop} {kept : Instant → Prop} {mails interrupted : Prop}
    {w v : World} (h : w.Deed mails interrupted v) : w.Upholds own kept v := by
  obtain hinside | ⟨campaign, status, rfl⟩ | ⟨e, now, -, he, rfl⟩ := h.inside_or
  · exact hinside.upholds_uninterrupted
  · exact upholds_of_eq rfl rfl fun _ h => h
  · have hhalts : e.haltsLead = true := by rw [Engagement.haltsLead, he]
    -- Such an event is taken in without a mailer, so any engine may stand for the change.
    have hingest : (Engine.ingest .plain e now).on ⟨w, 0⟩ =
        (((Change.ingestHalting e now).on w).1, ⟨((Change.ingestHalting e now).on w).2, 0⟩) := by
      rw [Engine.ingest, if_pos hhalts]
      rfl
    obtain ⟨report, t, hok⟩ := Engine.ingest_halting hhalts .plain now ⟨w, 0⟩
    have ht : t.world = ((Change.ingestHalting e now).on w).2 := by
      rw [hok] at hingest
      exact congrArg (fun r => r.2.world) hingest
    rw [← ht]
    refine Engine.ingest_upholds_of (s := ⟨w, 0⟩) (fun r => ?_) hok
    have hdeeds : r.world.Deeds False False ((Change.haltLead e now).on r.world).2 :=
      Change.haltLead_deeds r.world
    rw [Engine.onward, if_pos hhalts]
    exact hdeeds.keeps fun _ _ h => h.upholds_uninterrupted

end MailCampaign
