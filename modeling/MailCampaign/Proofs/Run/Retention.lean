import MailCampaign.Proofs.Engine.Feed
import MailCampaign.Proofs.Engine.Registry
import MailCampaign.Proofs.Run.Succession

/-!
# Keys along a succession

A key that is let in is kept in both registries until pruning forgets it in both, whatever happens
meanwhile, also if the engine is replaced by another one that loads its snapshot.

1. Every operation upholds the registries, at its end and at each moment on its way, but for the keys
   that pruning forgets (`Operation.carries`). So does a restart, as all keys are settled by then.
2. So along a succession the registries agree at every moment, but for the keys of mails that the
   engines sent, and an event of a key that is kept is turned away.
-/

namespace MailCampaign

variable {σ α : Type} {svc : Services σ} {R : World → World → Prop} {own : String → Prop}
  {kept : Instant → Prop} {s t u : Session (σ × List Moment)}

/-! ## Later moments -/

/-- A later session, whose world and those of the moments since stand in a relation in the order of
time. -/
structure Session.Ordered (R : World → World → Prop) (s t : Session (σ × List Moment)) : Prop where
  world : R s.world t.world
  moments : ∃ later, t.moments = later ++ s.moments ∧
    later.Pairwise (fun m l => R l.world m.world) ∧
    ∀ m ∈ later, R s.world m.world ∧ R m.world t.world

instance [IsPreorder World R] : IsPreorder (Session (σ × List Moment)) (Session.Ordered R) where
  refl := fun s => ⟨refl_of R s.world, [], rfl, .nil, fun _ h => absurd h List.not_mem_nil⟩
  trans := by
    intro s t u h h'
    obtain ⟨l, hl, hpair, hmem⟩ := h.moments
    obtain ⟨l', hl', hpair', hmem'⟩ := h'.moments
    refine ⟨trans_of R h.world h'.world, l' ++ l, by rw [hl', hl, List.append_assoc],
      List.pairwise_append.2 ⟨hpair', hpair, fun m hm k hk =>
        trans_of R (hmem k hk).2 (hmem' m hm).1⟩, fun m hm => ?_⟩
    rcases List.mem_append.1 hm with hm | hm
    · exact ⟨trans_of R h.world (hmem' m hm).1, (hmem' m hm).2⟩
    · exact ⟨(hmem m hm).1, trans_of R (hmem m hm).2 h'.world⟩

/-- The world goes on, and no moment is noted. -/
theorem Session.Ordered.of_world (hworld : R s.world t.world) (hmoments : t.moments = s.moments) :
    s.Ordered R t :=
  ⟨hworld, [], hmoments, .nil, fun _ h => absurd h List.not_mem_nil⟩

theorem Session.Ordered.mono {R' : World → World → Prop} (h : s.Ordered R t)
    (hR : ∀ w v, R w v → R' w v) : s.Ordered R' t where
  world := hR _ _ h.world
  moments := by
    obtain ⟨later, hlater, hpair, hmem⟩ := h.moments
    exact ⟨later, hlater, hpair.imp fun h => hR _ _ h,
      fun m hm => (hmem m hm).imp (hR _ _) (hR _ _)⟩

/-- A later session that upholds the registries, and retains them at the moments since, at which keys
may be pending. -/
structure Session.Carries (own : String → Prop) (kept : Instant → Prop)
    (s t : Session (σ × List Moment)) : Prop extends s.Ordered (World.Retains own kept) t where
  settled : ∀ pending, s.world.SettledBut pending → t.world.SettledBut pending

instance : IsPreorder (Session (σ × List Moment)) (Session.Carries own kept) where
  refl := fun s => ⟨refl_of (Session.Ordered (World.Retains own kept)) s, fun _ h => h⟩
  trans := fun _ _ _ h h' =>
    ⟨trans_of (Session.Ordered (World.Retains own kept)) h.toOrdered h'.toOrdered,
      fun pending hs => h'.settled pending (h.settled pending hs)⟩

namespace Session.Carries

theorem of_upholds (hworld : s.world.Upholds own kept t.world) (hmoments : t.moments = s.moments) :
    s.Carries own kept t := ⟨.of_world hworld.toRetains hmoments, hworld.settled⟩

/-- A moment is noted. -/
theorem of_look {scene : Option Scene} (hworld : t.world = s.world)
    (hmoments : t.moments = ⟨scene, s.world⟩ :: s.moments) : s.Carries own kept t where
  world := hworld ▸ refl_of (World.Retains own kept) _
  moments := by
    refine ⟨[⟨scene, s.world⟩], hmoments, List.pairwise_singleton _ _, fun m hm => ?_⟩
    obtain rfl := List.mem_singleton.1 hm
    rw [hworld]
    exact ⟨refl_of (World.Retains own kept) _, refl_of (World.Retains own kept) _⟩
  settled := fun _ h => hworld ▸ h

end Session.Carries

theorem Session.Deeds.carries {mails interrupted : Prop}
    (h : s.Deeds svc.recording mails interrupted t) : s.Carries own kept t := by
  induction h with
  | refl => exact refl_of (Session.Carries own kept) s
  | tail _ hstep ih =>
    refine trans_of (Session.Carries own kept) ih ?_
    cases hstep with
    | world h => exact .of_upholds h.upholds rfl
    | render mail lead =>
      obtain ⟨mailer, hon⟩ := Engine.render_recording svc mail lead _
      rw [hon]
      exact .of_upholds (World.upholds_of_eq rfl rfl fun _ h => h) rfl
    | look scene => exact .of_look rfl rfl
    | hand lead mail =>
      refine .of_upholds (World.upholds_of_eq rfl rfl fun id hid => ?_) rfl
      obtain ⟨sent, hmem, hresult⟩ := hid
      exact ⟨sent, List.mem_cons_of_mem _ hmem, hresult⟩

/-! ## Operations -/

namespace Change

open World

variable {campaign : Uuid} {now : Instant}

/-- Activating a version lets no key in and counts nothing. -/
theorem activate_sameKeys (document : Document) :
    (activate campaign document now).Keeps SameKeys := by
  refine .get fun w => ?_
  by_cases hs : w.status campaign = .canceled
  · rw [if_pos hs]
    exact refl_of SameKeys w
  · rw [if_neg hs]
    cases w.flows.activate (Uuid.ofNat w.nextId) campaign document now with
    | error v => exact refl_of SameKeys w
    | ok stored => exact ⟨rfl, rfl, rfl⟩

/-- A lead that enters is counted, but under no key. -/
theorem addLead_sameKeys (lead : Lead) : (Engine.addLead campaign lead now).Keeps SameKeys := by
  refine .get fun w => ?_
  split
  · exact refl_of SameKeys w
  · cases w.flows.active? campaign with
    | none => exact refl_of SameKeys w
    | some g =>
      rw [on_bind_ok (on_need_some _ g w)]
      dsimp only
      split
      · exact refl_of SameKeys w
      · exact ⟨rfl, rfl, rfl⟩

theorem activate_upholds (document : Document) :
    (activate campaign document now).Keeps (Upholds own kept) :=
  (activate_sameKeys document).mono fun _ _ h => h.upholds

theorem addLead_upholds (lead : Lead) :
    (Engine.addLead campaign lead now).Keeps (Upholds own kept) :=
  (addLead_sameKeys lead).mono fun _ _ h => h.upholds

end Change

namespace Engine

open Session

variable {e : Engagement} {now : Instant} {report : IngestReport}

theorem carries_lift {c : Change α} (h : c.Keeps (World.Upholds own kept)) :
    (liftM c : Engine (σ × List Moment) α).Keeps (Carries own kept) :=
  fun s => .of_upholds (h s.world) rfl

theorem dispatch_carries (trigger : Trigger) (now : Instant) (key : CursorKey) :
    (dispatch svc.recording key trigger now).Keeps (Carries own kept) := by
  intro s
  have hdeeds : s.Deeds svc.recording True True ((dispatch svc.recording key trigger now).on s).2 :=
    dispatch_deeds trivial (.inr trivial) trigger now key s
  exact hdeeds.carries

theorem onward_carries : (onward svc.recording e now).Keeps (Carries own kept) := by
  intro s
  have hdeeds : s.Deeds svc.recording True True ((onward svc.recording e now).on s).2 :=
    onward_deeds trivial (.inr trivial) s
  exact hdeeds.carries

/-- Taking an event in upholds the registries, and the key of one that was not turned away is there at
all moments on its way. -/
theorem ingest_carries (own : String → Prop) (kept : Instant → Prop)
    (h : (ingest svc.recording e now).on s = (.ok report, t)) :
    s.Carries own kept t ∧ (report.duplicate = false → ∃ w : World, w.Admitted e.key now ∧
      Session.Ordered (World.Retains own kept) ⟨w, s.mailer⟩ t) := by
  obtain ⟨hdup, rfl⟩ | ⟨seen, u, hseen, -, hon, rfl⟩ := ingest_cases h
  · refine ⟨refl_of (Carries own kept) _, fun hnew => ?_⟩
    rw [hnew] at hdup
    cases hdup
  · let v : World := ({ s.world with seen } : World).count e none now
    obtain ⟨hcounted, hadmitted, hpending⟩ := World.retains_counted own kept hseen
    have hway : Carries own kept { s with world := v } u := by
      have hcarries : Carries own kept { s with world := v } ((onward svc.recording e now).on
          { s with world := v }).2 := onward_carries _
      rw [hon] at hcarries
      exact hcarries
    -- The key was pending as long as the event was on its way; now it is settled like all others.
    obtain ⟨hsettled, hnone⟩ := u.world.retains_settle own kept e.key
    let t : Session (σ × List Moment) :=
      { u with world := ((Change.settle e.key).on u.world).2 }
    have hlast : u.Ordered (World.Retains own kept) t := .of_world hsettled rfl
    have hrest : Session.Ordered (World.Retains own kept) ⟨v, s.mailer⟩ t :=
      trans_of (Session.Ordered (World.Retains own kept)) hway.toOrdered hlast
    have hfirst : s.Ordered (World.Retains own kept) ⟨v, s.mailer⟩ := .of_world hcounted rfl
    have hall := trans_of (Session.Ordered (World.Retains own kept)) hfirst hrest
    exact ⟨⟨hall, fun pending hs => hnone pending (hway.settled _ (hpending pending hs))⟩,
      fun _ => ⟨v, hadmitted, hrest⟩⟩

end Engine

/-- An operation that forgets no key that was let in at an instant: if it prunes, then with less than
`2 ^ 63` hours, and that long before its time the instant had not passed. -/
def Operation.Spares (t : Instant) : Operation → Prop
  | prune ttlHours now => ttlHours.toNat < 2 ^ 63 ∧ ∀ ttl cutoff,
      Span.ofHours? ttlHours.toNat = some ttl → now.subtract? ttl = some cutoff → cutoff ≤ t
  | _ => True

theorem Operation.Spares.cutoff_le {first now cutoff : Instant} {ttlHours : UInt64} {ttl : Span}
    (h : (Operation.prune ttlHours now).Spares first)
    (httl : Span.ofHours? ttlHours.toInt64.toInt = some ttl)
    (hcutoff : now.subtract? ttl = some cutoff) : cutoff ≤ first :=
  h.2 ttl cutoff (UInt64.toInt_toInt64 h.1 ▸ httl) hcutoff

theorem Change.prune_upholds {ttlHours : UInt64} {now : Instant}
    (hkept : ∀ t, kept t → (Operation.prune ttlHours now).Spares t) :
    (prune ttlHours now).Keeps (World.Upholds own kept) := by
  intro w
  rcases w.on_prune_cases ttlHours now with hsame | ⟨ttl, cutoff, httl, hcutoff, hpruned⟩
  · rw [hsame]
    exact refl_of (World.Upholds own kept) w
  · rw [hpruned]
    exact World.upholds_pruned fun t ht => (hkept t ht).cutoff_le httl hcutoff

/-- Where no time is out of range every event is taken in. -/
theorem Operation.Leads.ingest_ok {e : Engagement} {now : Instant}
    (h : (Operation.ingest e now).Leads svc (· ≠ .outOfRange) s t) (hw : s.world.Tidy) :
    ∃ report u, (Engine.ingest svc.recording e now).on s = (.ok report, u) ∧
      report.duplicate = (s.world.seen.table.find? e.key).isSome ∧ t = u.noted := by
  have hperform : ((Operation.ingest e now).perform svc.recording).on s =
      (((Engine.ingest svc.recording e now).on s).1.map fun _ => ⟨⟩,
        ((Engine.ingest svc.recording e now).on s).2) := Engine.on_discard _ s
  obtain ⟨report, u, hon, hduplicate⟩ := Engine.ingest_ok svc.recording e now hw
    fun x hx => h.faults x (by rw [hperform, hx]; rfl)
  refine ⟨report, u, hon, hduplicate, ?_⟩
  rw [← h.next, Operation.next, hperform, hon]

/-- Every operation upholds the registries, but for the keys that pruning forgets. -/
theorem Operation.Leads.carries {op : Operation} (h : op.Leads svc (· ≠ .outOfRange) s t)
    (hkept : ∀ t, kept t → op.Spares t) (hw : s.world.Tidy) : s.Carries own kept t := by
  have hdispatch : ∀ trigger now key, (Engine.dispatch svc.recording key trigger now).Keeps
      (Session.Carries own kept) := Engine.dispatch_carries
  have hcontrol : ∀ {c : Change PUnit}, c.Keeps (World.Deeds True True) →
      s.Carries own kept ((liftM c : Engine (σ × List Moment) PUnit).on s).2 := by
    intro c hc
    have hdeeds : s.Deeds svc.recording True True
        ((liftM c : Engine (σ × List Moment) PUnit).on s).2 := Engine.deeds_lift hc s
    exact hdeeds.carries
  have hperform : s.Carries own kept ((op.perform svc.recording).on s).2 := by
    cases op with
    | activate campaign document now =>
      exact Engine.carries_lift (Change.activate_upholds document).discard s
    | enroll campaign lead now =>
      exact (Engine.Keeps.enroll (Engine.carries_lift (Change.addLead_upholds lead))
        (hdispatch .enter now) fun key => Engine.carries_lift (.cursor key)).discard s
    | ingest e now =>
      obtain ⟨report, u, hon, -⟩ := h.ingest_ok hw
      show s.Carries own kept ((discard (Engine.ingest svc.recording e now)).on s).2
      rw [Engine.on_discard, hon]
      exact (Engine.ingest_carries own kept hon).1
    | dispatch key trigger now => exact (hdispatch trigger now key).discard s
    | tick batchSize now => exact (Engine.Keeps.tick (hdispatch .timer now) batchSize).discard s
    | pause campaign now => exact hcontrol (Change.pause_deeds trivial).discard
    | cancel campaign now => exact hcontrol (Change.cancelCampaign_deeds trivial).discard
    | resume campaign => exact hcontrol (Change.resume_deeds trivial)
    | prune ttlHours now => exact Engine.carries_lift (Change.prune_upholds hkept).discard s
    | recover now => exact (Engine.Keeps.recover (hdispatch .enter now)).discard s
  have hnoted : Session.Carries own kept ((op.perform svc.recording).on s).2 (op.next svc s) :=
    .of_look rfl rfl
  exact h.next ▸ trans_of (Session.Carries own kept) hperform hnoted

/-! ## Successions -/

/-- The key under which a mail is counted that an engine has sent by some moment. -/
def Session.Own (s : Session (σ × List Moment)) (key : String) : Prop :=
  ∃ m ∈ s.moments, ∃ id, m.world.HasSent id ∧ key = sentKey id

/-- A session between two operations: all keys are settled, and at every moment so far the registries
agreed on the keys that are not those of mails. -/
structure Session.Registered (s : Session (σ × List Moment)) : Prop where
  settled : s.world.AllSettled
  noted : ⟨none, s.world⟩ ∈ s.moments
  agreed : ∀ m ∈ s.moments, ∀ key, s.Own key ∨ m.world.AgreesOn key

theorem Session.registered_start (firstId : Nat) (mailer : σ) :
    (Session.start firstId mailer).Registered where
  settled := World.allSettled_empty firstId
  noted := List.mem_cons_self
  agreed := by
    intro m hm key
    obtain rfl := List.mem_singleton.1 hm
    exact .inr rfl

theorem Session.Carries.registered (h : s.Carries s.Own kept t) (hnoted : ⟨none, t.world⟩ ∈ t.moments)
    (hs : s.Registered) : t.Registered := by
  obtain ⟨later, hlater, -, hmem⟩ := h.moments
  have hown : ∀ key, s.Own key → t.Own key := fun key ⟨m, hm, hsent⟩ =>
    ⟨m, hlater ▸ List.mem_append_right later hm, hsent⟩
  refine ⟨World.allSettled_iff.2 (h.settled _ (World.allSettled_iff.1 hs.settled)), hnoted,
    fun m hm key => ?_⟩
  rcases List.mem_append.1 (hlater ▸ hm) with hnew | hold
  · have hbefore : s.world.Agreed s.Own := fun key => (hs.agreed _ hs.noted key).imp_right .inr
    rcases (hmem m hnew).1.agreed hbefore key with hkey | ⟨id, hid, hkey⟩ | hkey
    · exact .inl (hown key hkey)
    · exact .inl ⟨m, hm, id, hid, hkey⟩
    · exact .inr hkey
  · exact (hs.agreed m hold key).imp_left (hown key)

/-- A restart brings back both registries, as all keys are settled. -/
theorem Session.Restarted.carries (h : s.Restarted t) (hw : s.world.Tidy) (hs : s.Registered) :
    s.Carries s.Own kept t := by
  have hslots := h.at?_eq hw
  obtain @⟨snap, firstId, mailer, -⟩ := h
  have hsettled := (World.allSettled_empty firstId).restore snap
  let fresh : Session (σ × List Moment) :=
    ⟨((World.empty firstId).restore snap).1, mailer, s.moments⟩
  -- The mails of the old engine are no longer in the world, but they are on record.
  have hloaded : s.Carries s.Own kept fresh :=
    ⟨.of_world (World.retains_of_slots hs.settled hsettled hslots
      fun id hid => ⟨_, hs.noted, id, hid, rfl⟩) rfl, fun _ _ key a ha => .inr (hsettled key a ha)⟩
  have hnoted : fresh.Carries s.Own kept fresh.noted := .of_look rfl rfl
  exact trans_of (Session.Carries s.Own kept) hloaded hnoted

theorem Session.Stage.carries {may : Operation → Prop} (h : s.Stage svc (· ≠ .outOfRange) may t)
    (kept : Instant → Prop) (hkept : ∀ op, may op → ∀ t, kept t → op.Spares t) (hw : s.world.Tidy) (hs : s.Registered) :
    s.Carries s.Own kept t ∧ t.Registered := by
  cases h with
  | perform hop hleads =>
    have hcarries : s.Carries s.Own kept t := hleads.carries (hkept _ hop) hw
    exact ⟨hcarries, hcarries.registered (hleads.next ▸ List.mem_cons_self) hs⟩
  | restart h =>
    have hcarries : s.Carries s.Own kept t := h.carries hw hs
    refine ⟨hcarries, hcarries.registered ?_ hs⟩
    obtain ⟨firstId, mailer, hsnap⟩ := h
    exact List.mem_cons_self

theorem Succession.registered (h : Succession svc (· ≠ .outOfRange) s) : s.Registered := by
  obtain ⟨firstId, mailer, h⟩ := h
  induction h with
  | refl => exact Session.registered_start firstId mailer
  | tail hbefore hstep ih =>
    have hsuccession : Succession svc (· ≠ .outOfRange) _ := ⟨firstId, mailer, hbefore⟩
    exact (hstep.carries (fun _ => False) (fun _ _ _ h => h.elim) hsuccession.tidy ih).2

/-- A later world that remembers the keys let in at an instant. -/
def World.Remembers (t : Instant) (w v : World) : Prop :=
  ∀ key, w.Admitted key t → v.Admitted key t

instance (t : Instant) : IsPreorder World (World.Remembers t) where
  refl := fun _ _ h => h
  trans := fun _ _ _ h h' key hw => h' key (h key hw)

theorem World.Retains.remembersAt {w v : World} {t : Instant} (h : w.Retains own kept v)
    (ht : kept t) : w.Remembers t v := fun key hw => h.remembers key t ht hw

/-- What is let in at an instant is remembered along a succession that spares it. -/
theorem Succession.remembers {first : Instant} (h : Succession svc (· ≠ .outOfRange) s)
    (hu : s.Proceeds svc (· ≠ .outOfRange) (Operation.Spares first) u) :
    s.Ordered (World.Remembers first) u := by
  induction hu with
  | refl => exact refl_of (Session.Ordered (World.Remembers first)) s
  | tail hbefore hstep ih =>
    have hsuccession := h.proceed hbefore
    have hcarries := (hstep.carries (· = first) (fun op hop t ht => ht ▸ hop)
      hsuccession.tidy hsuccession.registered).1
    exact trans_of (Session.Ordered (World.Remembers first)) ih
      (hcarries.toOrdered.mono fun _ _ h => h.remembersAt rfl)

/-! ## Duplicates -/

/-- Every event of a key is turned away with nothing changed, not even in the mailer, whatever engine
has these seen keys. -/
def World.TurnsAway (w : World) (key : String) : Prop :=
  ∀ (τ : Type) (svc : Services τ) (r : Session τ) (e : Engagement) (now : Instant),
    r.world.seen = w.seen → e.key = key →
    (Engine.ingest svc e now).on r = (.ok { key, duplicate := true }, r)

theorem World.Admitted.turnsAway {w : World} {key : String} {t : Instant} (h : w.Admitted key t) :
    w.TurnsAway key := by
  rintro τ svc r e now hseen rfl
  obtain ⟨a, ha, -⟩ := Option.map_eq_some_iff.1 h
  exact Engine.on_ingest_seen (hseen ▸ ha) svc now

/-- An engine that is at work has the registries of a moment. -/
def Session.At {τ : Type} (m : Moment) (r : Session τ) : Prop :=
  r.world.seen = m.world.seen ∧ r.world.statistics = m.world.statistics

namespace Succession

variable {e : Engagement} {now first : Instant}

/-- A key that is let in at a moment is turned away at all later ones, as long as it is spared. -/
theorem turnsAway (h : Succession svc (· ≠ .outOfRange) s)
    (hu : s.Proceeds svc (· ≠ .outOfRange) (Operation.Spares first) u) :
    ∃ later, u.moments = later ++ s.moments ∧ later.Pairwise fun m l =>
      ∀ key, l.world.Admitted key first → m.world.TurnsAway key := by
  obtain ⟨later, hlater, hpair, -⟩ := (h.remembers hu).moments
  exact ⟨later, hlater, hpair.imp fun h key hkey => (h key hkey).turnsAway⟩

/-- An event with a new key is taken in. From then on its key is turned away, as long as it is
spared. -/
theorem turnsAway_ingested (h : Succession svc (· ≠ .outOfRange) s)
    (hingest : (Operation.ingest e now).Leads svc (· ≠ .outOfRange) s t)
    (hnew : s.world.seen.table.find? e.key = none) :
    (∃ report, ((Engine.ingest svc.recording e now).on s).1 = .ok report ∧
      report.duplicate = false) ∧
    ∀ u, t.Proceeds svc (· ≠ .outOfRange) (Operation.Spares now) u →
      ∃ later, u.moments = later ++ s.moments ∧ ∀ m ∈ later, m.world.TurnsAway e.key := by
  obtain ⟨report, v, hon, hduplicate, rfl⟩ := hingest.ingest_ok h.tidy
  rw [hnew, Option.isSome_none] at hduplicate
  refine ⟨⟨report, by rw [hon], hduplicate⟩, fun u hu => ?_⟩
  -- The key is let in before the first moment of the ingest, so the order starts there.
  obtain ⟨w, hadmitted, hway⟩ := (Engine.ingest_carries (fun _ => False) (fun _ => True) hon).2
    hduplicate
  have hnoted : v.Carries (fun _ => False) (fun _ => True) v.noted := .of_look rfl rfl
  have hingested : Session.Ordered (World.Remembers now) ⟨w, s.mailer⟩ v.noted :=
    (trans_of (Session.Ordered (World.Retains _ _)) hway hnoted.toOrdered).mono
      fun _ _ h => h.remembersAt trivial
  have hall := trans_of (Session.Ordered (World.Remembers now)) hingested
    ((h.perform hingest).remembers hu)
  obtain ⟨later, hlater, -, hmem⟩ := hall.moments
  exact ⟨later, hlater, fun m hm => ((hmem m hm).1 _ hadmitted).turnsAway⟩

/-- **A key counts once, and for as long as it is kept.** In a succession in which no time is out of
range, the keys that were let in are at every moment those that were counted, with the same instants,
but for the keys of mails that the engines sent. So an engine that takes an event in at such a moment,
and does not turn it away, counts it once, in its campaign and among its kind. An event with a new key
is taken in between two operations. Whatever is done then, also restarts and prunings that spare the
instant, its key is turned away, and nothing changes; this holds at every moment since, while the
event itself is on its way, too. And so it is with all keys that are let in at some moment. -/
theorem keys_count_once (h : Succession svc (· ≠ .outOfRange) s) :
    (∀ m ∈ s.moments, ∀ key, s.Own key ∨ m.world.AgreesOn key) ∧
    (∀ m ∈ s.moments, ∀ (τ : Type) (again : Services τ) (r t : Session τ) (e : Engagement)
      (now : Instant) (report : IngestReport), r.At m → (Engine.ingest again e now).on r =
        (.ok report, t) → report.duplicate = false → ¬ s.Own e.key →
      r.world.CountedOnce e now t.world) ∧
    (∀ e now t, (Operation.ingest e now).Leads svc (· ≠ .outOfRange) s t →
      s.world.seen.table.find? e.key = none →
      (∃ report, ((Engine.ingest svc.recording e now).on s).1 = .ok report ∧
        report.duplicate = false) ∧
      ∀ u, t.Proceeds svc (· ≠ .outOfRange) (Operation.Spares now) u →
        ∃ later, u.moments = later ++ s.moments ∧ ∀ m ∈ later, m.world.TurnsAway e.key) ∧
    ∀ first u, s.Proceeds svc (· ≠ .outOfRange) (Operation.Spares first) u →
      ∃ later, u.moments = later ++ s.moments ∧ later.Pairwise fun m l =>
        ∀ key, l.world.Admitted key first → m.world.TurnsAway key := by
  refine ⟨h.registered.agreed, ?_, fun e now t => h.turnsAway_ingested,
    fun first u => h.turnsAway⟩
  intro m hm τ again r t e now report hat hon hnew hown
  have hagrees : r.world.AgreesOn e.key := by
    rw [World.AgreesOn, hat.1, hat.2]
    exact (h.registered.agreed m hm e.key).resolve_left hown
  exact Engine.ingest_counted hon hnew hagrees

end Succession

/-- The short run in which the lead opens the mail. -/
def Session.opened : Session (Nat × List Moment) :=
  (Operation.ingest (.ofAda .opened) .epoch).next .plain .enrolled

/-- The same after a restart from its snapshot, and after pruning that just spares the event. -/
def Session.pruned : Session (Nat × List Moment) :=
  (Operation.prune 48 .secondDay).next .plain
    (Session.opened.restart (Session.opened.world.snapshot .epoch).sorted 5 9)

theorem leads_opened :
    (Operation.ingest (.ofAda .opened) .epoch).Leads .plain (· ≠ .outOfRange) .enrolled .opened := by
  refine ⟨trivial, fun x hx => ?_, rfl⟩
  have hok : (((Operation.ingest (.ofAda .opened) .epoch).perform Services.plain.recording).on
      .enrolled).1 = .ok ⟨⟩ := by decide +kernel
  rw [hok] at hx
  cases hx

theorem proceeds_pruned :
    Session.opened.Proceeds .plain (· ≠ .outOfRange) (Operation.Spares .epoch) .pruned := by
  have hspares : (Operation.prune 48 .secondDay).Spares .epoch := by
    refine ⟨by decide, fun ttl cutoff httl hcutoff => ?_⟩
    have hback : (Span.ofHours? ((48 : UInt64).toNat : Int)).bind Instant.secondDay.subtract? =
        some .epoch := by decide +kernel
    rw [httl] at hback
    exact Instant.le_iff.2 (by rw [Option.some.inj (hcutoff.symm.trans hback)])
  refine .tail (.single (.restart (.intro 5 9 (Session.opened.world.lists_snapshot .epoch).sorted)))
    (.perform hspares ⟨trivial, fun x hx => ?_, rfl⟩)
  have hok : (((Operation.prune 48 .secondDay).perform Services.plain.recording).on
      (Session.opened.restart (Session.opened.world.snapshot .epoch).sorted 5 9)).1 = .ok ⟨⟩ := by
    decide +kernel
  rw [hok] at hx
  cases hx

theorem not_own_opened {s : Session (σ × List Moment)} : ¬ s.Own (Engagement.ofAda .opened).key := by
  rintro ⟨m, -, id, -, hkey⟩
  have hsuffix : ":sent".toList <:+ (Engagement.ofAda .opened).key.toList := by
    rw [hkey, sentKey, String.toList_append, String.toList_append, List.append_assoc]
    exact List.suffix_append id.toList _
  revert hsuffix
  decide

theorem Succession.keys_count_once_opened :
    (∃ later, Session.pruned.moments = later ++ Session.enrolled.moments ∧
      ∀ m ∈ later, m.world.TurnsAway (Engagement.ofAda .opened).key) ∧
    Session.enrolled.world.CountedOnce (.ofAda .opened) .epoch Session.opened.world := by
  obtain ⟨-, hcounted, hingested, -⟩ :=
    Succession.keys_count_once (run_enrolled (· ≠ .outOfRange)).succession
  have hnew : Session.enrolled.world.seen.table.find? (Engagement.ofAda .opened).key = none := by
    decide +kernel
  obtain ⟨⟨report, hok, hduplicate⟩, haway⟩ := hingested _ _ _ leads_opened hnew
  have hworld : Session.opened.world =
      ((Engine.ingest Services.plain.recording (.ofAda .opened) .epoch).on .enrolled).2.world := by
    show ((discard (Engine.ingest Services.plain.recording (.ofAda .opened) .epoch)).on
      .enrolled).2.world = _
    rw [Engine.on_discard]
  rw [hworld]
  exact ⟨haway _ proceeds_pruned, hcounted _ List.mem_cons_self _ _ .enrolled _ _ .epoch report
    ⟨rfl, rfl⟩ (Prod.ext hok rfl) hduplicate not_own_opened⟩

end MailCampaign
