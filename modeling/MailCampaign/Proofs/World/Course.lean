import MailCampaign.Engine.Dispatch
import MailCampaign.Proofs.Cursor.Timers
import MailCampaign.Proofs.Cursor.WellFormed
import Mathlib.Logic.Relation

/-!
# The courses of a world

Whatever the engine does to a world it does in small steps, and `Shift` lists all of them: a turn of a
cursor, a cancellation, counting on a cursor, writing a cursor down as it is, a new cursor, a new
version of a flow, a new status of a campaign, and bookkeeping that concerns none of these. A course
is any number of such steps. What one step preserves therefore holds along every course, and it is
enough to show for each operation that it takes a course.

A scope says what a course may do besides: for which cursors it takes turns, and whether mail goes
out in it.
-/

namespace MailCampaign

/-- Something that goes out and concerns no flow, cursor or campaign, and is no mail. -/
inductive Effect.Minor : Effect → Prop
  | lead (l : Lead) : Minor (.entry (.lead l))
  | stats (campaign : Uuid) (totals : Totals) (applied : Option (String × Instant))
      (unique : Option (String × EngagementKind)) :
      Minor (.entry (.stats campaign totals applied unique))
  | seenKey (key : String) (time : Instant) : Minor (.entry (.seenKey key time))
  | activity (a : Activity) : Minor (.activity a)

/-- Whether something that goes out is a mail. -/
def Effect.isMail : Effect → Bool
  | .submission _ => true
  | _ => false

theorem Effect.Minor.isMail {e : Effect} (h : e.Minor) : e.isMail = false := by cases h <;> rfl

/-- What a course may do. -/
structure Scope where
  /-- The cursors that take turns or enter. -/
  turns : CursorKey → Prop
  /-- Whether mail goes out. -/
  mails : Prop

namespace Scope

/-- No cursor takes a turn. -/
def idle : Scope := ⟨fun _ => False, False⟩

/-- One cursor takes turns. -/
def one (key : CursorKey) : Scope := ⟨fun k => k = key, False⟩

/-- Every cursor takes turns. -/
def all : Scope := ⟨fun _ => True, False⟩

/-- Mail goes out too. -/
def mailing (s : Scope) : Scope := { s with mails := True }

/-- A scope that allows what another allows. -/
structure Within (s t : Scope) : Prop where
  turns : ∀ key, s.turns key → t.turns key
  mails : s.mails → t.mails

theorem idle_within (s : Scope) : idle.Within s := ⟨fun _ h => h.elim, False.elim⟩

theorem within_mailing (s : Scope) : s.Within s.mailing := ⟨fun _ h => h, fun _ => trivial⟩

theorem one_within_all (key : CursorKey) : (one key).Within all := ⟨fun _ _ => trivial, id⟩

end Scope

namespace World

/-- Bookkeeping: flows, cursors and campaigns stay, and only minor things go out. -/
structure Booked (w v : World) : Prop where
  flows : v.flows = w.flows
  cursors : v.cursors = w.cursors
  campaigns : v.campaigns = w.campaigns
  trace : ∃ l, v.trace = l ++ w.trace ∧ ∀ e ∈ l, e.Minor

theorem Booked.trans {w v u : World} (h : w.Booked v) (h' : v.Booked u) : w.Booked u := by
  obtain ⟨l, hl, hm⟩ := h.trace
  obtain ⟨l', hl', hm'⟩ := h'.trace
  refine ⟨h'.flows.trans h.flows, h'.cursors.trans h.cursors, h'.campaigns.trans h.campaigns,
    l' ++ l, ?_, fun e he => (List.mem_append.1 he).elim (hm' e) (hm e)⟩
  rw [hl', hl, List.append_assoc]

theorem booked_emit (w : World) {e : Effect} (h : e.Minor) : w.Booked (w.emit e) :=
  ⟨rfl, rfl, rfl, [e], rfl, fun _ he => List.mem_singleton.1 he ▸ h⟩

/-- One small step of a world, within a scope. -/
inductive Shift (policy : RetryPolicy) (scope : Scope) (w : World) : World → Prop
  /-- A cursor takes a turn. -/
  | turn {key : CursorKey} {c d : Cursor} : scope.turns key → w.cursors.find? key = some c →
      c.Turn policy w.flows d → Shift policy scope w (w.storeCursor c d)
  /-- A running cursor is canceled. -/
  | canceled {key : CursorKey} {c : Cursor} (reason : String) (now : Instant) :
      w.cursors.find? key = some c → c.state.terminal = false →
      Shift policy scope w (w.storeCursor c (Change.canceled reason now c))
  /-- An event is counted on a cursor. -/
  | counted {key : CursorKey} {c : Cursor} (e : Engagement) : w.cursors.find? key = some c →
      Shift policy scope w (w.storeCursor c (counted e c))
  /-- A cursor is written down as it is. -/
  | kept {key : CursorKey} {c : Cursor} : w.cursors.find? key = some c →
      Shift policy scope w (w.storeCursor c c)
  /-- A lead enters a version. -/
  | entered {leadId : String} {g : Graph} (id campaign : Uuid) (now : Instant) (nextId : Nat)
      (leads : Table String Lead) : scope.turns ⟨g.id, leadId⟩ → w.flows.find? g.id = some g →
      w.cursors.find? ⟨g.id, leadId⟩ = none →
      Shift policy scope w (World.journal
        { w with cursors := w.cursors.addNew (Engine.newCursor id g campaign leadId now), nextId,
                 leads }
        (.cursor (Engine.newCursor id g campaign leadId now)))
  /-- A version of a flow under an id of its own is stored. -/
  | activated {id campaign : Uuid} {document : Document} {now : Instant} {flows : FlowStore}
      {g : Graph} (nextId : Nat) : w.flows.activate id campaign document now = .ok (flows, g) →
      w.flows.find? id = none →
      Shift policy scope w (World.journal { w with flows, nextId } (.flow g.definition))
  /-- A campaign gets a status; a canceled campaign stays so. -/
  | status {campaign : Uuid} {status : CampaignStatus} :
      (w.status campaign = .canceled → status = .canceled) →
      Shift policy scope w (w.setStatus campaign status)
  /-- Bookkeeping. -/
  | booked {v : World} : w.Booked v → Shift policy scope w v
  /-- A mail goes out. -/
  | mailed (s : Submission) : scope.mails → Shift policy scope w (w.emit (.submission s))

/-- Any number of small steps. -/
abbrev Course (policy : RetryPolicy) (scope : Scope) : World → World → Prop :=
  Relation.ReflTransGen (Shift policy scope)

variable {policy : RetryPolicy} {scope : Scope} {w v : World}

theorem Shift.mono {scope' : Scope} (h : w.Shift policy scope v) (hs : scope.Within scope') :
    w.Shift policy scope' v := by
  cases h with
  | turn ho hc ht => exact .turn (hs.turns _ ho) hc ht
  | canceled reason now hc hr => exact .canceled reason now hc hr
  | counted e hc => exact .counted e hc
  | kept hc => exact .kept hc
  | entered id campaign now nextId leads ho hg hn =>
    exact .entered id campaign now nextId leads (hs.turns _ ho) hg hn
  | activated nextId ha hn => exact .activated nextId ha hn
  | status hk => exact .status hk
  | booked hb => exact .booked hb
  | mailed s hm => exact .mailed s (hs.mails hm)

theorem Course.mono {scope' : Scope} (h : w.Course policy scope v) (hs : scope.Within scope') :
    w.Course policy scope' v := Relation.ReflTransGen.mono (fun _ _ h => Shift.mono h hs) _ _ h

/-- What every small step preserves holds along a course. -/
@[elab_as_elim]
theorem Course.preserves {motive : World → Prop} (h : w.Course policy scope v) (hw : motive w)
    (hstep : ∀ u v, u.Shift policy scope v → motive u → motive v) : motive v := by
  induction h with
  | refl => exact hw
  | tail _ h ih => exact hstep _ _ h ih

theorem Booked.course (h : w.Booked v) : w.Course policy scope v := .single (.booked h)

/-! ## Mails -/

/-- The number of mails that went out. -/
def mails (w : World) : Nat := w.trace.countP Effect.isMail

theorem Booked.mails_eq (h : w.Booked v) : v.mails = w.mails := by
  obtain ⟨l, hl, hm⟩ := h.trace
  have hzero : l.countP Effect.isMail = 0 :=
    List.countP_eq_zero.2 fun e he => by rw [(hm e he).isMail]; exact Bool.false_ne_true
  unfold mails
  rw [hl, List.countP_append, hzero, Nat.zero_add]

/-- In a scope without mail, none goes out. -/
theorem Course.mails_eq (h : w.Course policy scope v) (hs : ¬ scope.mails) :
    v.mails = w.mails := by
  refine h.preserves rfl fun u v h ih => ?_
  rw [← ih]
  cases h with
  | booked hb => exact hb.mails_eq
  | mailed s hm => exact absurd hm hs
  | _ => rfl

/-! ## Flows and campaigns -/

/-- No version is ever lost. -/
theorem Shift.grows (h : w.Shift policy scope v) : w.flows.Grows v.flows := by
  cases h with
  | activated nextId ha hn =>
    intro id' g' hg'
    refine (FlowStore.find?_activate ha id').trans ?_
    rw [if_neg, hg']
    rintro rfl
    rw [FlowStore.id_of_activate ha, hn] at hg'
    cases hg'
  | booked hb => rw [hb.flows]; exact .refl _
  | _ => exact .refl _

theorem Course.grows (h : w.Course policy scope v) : w.flows.Grows v.flows :=
  h.preserves (.refl _) fun _ _ h ih => ih.trans h.grows

theorem status_setStatus (w : World) (campaign campaign' : Uuid) (status : CampaignStatus) :
    (w.setStatus campaign status).status campaign' =
      if campaign' = campaign then status else w.status campaign' := by
  show ((w.campaigns.insert campaign status).find? campaign').getD .active = _
  rw [Table.find?_insert]
  split <;> rfl

/-- A canceled campaign stays canceled. -/
theorem Shift.canceled_status (h : w.Shift policy scope v) {campaign : Uuid}
    (hc : w.status campaign = .canceled) : v.status campaign = .canceled := by
  cases h with
  | status hk =>
    rw [status_setStatus]
    split
    · next e => exact hk (e ▸ hc)
    · exact hc
  | booked hb =>
    unfold World.status
    rw [hb.campaigns]
    exact hc
  | _ => exact hc

theorem Course.canceled_status (h : w.Course policy scope v) {campaign : Uuid}
    (hc : w.status campaign = .canceled) : v.status campaign = .canceled :=
  h.preserves hc fun _ _ h => h.canceled_status

/-! ## Cursors -/

/-- What one step does to the cursor of a key. -/
inductive Changes (policy : RetryPolicy) (scope : Scope) (flows : FlowStore) (key : CursorKey) :
    Option Cursor → Option Cursor → Prop
  | none (o : Option Cursor) : Changes policy scope flows key o o
  | turn {c d : Cursor} : scope.turns key → c.Turn policy flows d →
      Changes policy scope flows key (some c) (some d)
  | canceled {c : Cursor} (reason : String) (now : Instant) : c.state.terminal = false →
      Changes policy scope flows key (some c) (some (Change.canceled reason now c))
  | counted (c : Cursor) (e : Engagement) :
      Changes policy scope flows key (some c) (some (World.counted e c))
  | entered {id campaign : Uuid} {leadId : String} {now : Instant} {g : Graph} :
      scope.turns key → flows.find? g.id = some g →
      Changes policy scope flows key .none (some (Engine.newCursor id g campaign leadId now))

theorem find?_storeCursor_self {key : CursorKey} {c d : Cursor}
    (hc : w.cursors.find? key = some c) (hd : d.key = c.key) :
    (w.storeCursor c d).cursors.find? key = some d := by
  rw [find?_storeCursor, if_pos (hd.trans (CursorStore.key_eq_of_find? hc)).symm]

/-- Storing the new form of a cursor changes that cursor alone. -/
theorem changes_storeCursor {key key' : CursorKey} {c d : Cursor}
    (hc : w.cursors.find? key' = some c) (hd : d.key = c.key)
    (h : Changes policy scope w.flows key' (some c) (some d)) :
    Changes policy scope w.flows key (w.cursors.find? key)
      ((w.storeCursor c d).cursors.find? key) := by
  have hkey : d.key = key' := hd.trans (CursorStore.key_eq_of_find? hc)
  rw [find?_storeCursor, hkey]
  split
  · next e => rw [e, hc]; exact h
  · exact .none _

theorem Shift.changes (h : w.Shift policy scope v) (key : CursorKey) :
    Changes policy scope w.flows key (w.cursors.find? key) (v.cursors.find? key) := by
  cases h with
  | turn ho hc ht => exact changes_storeCursor hc ht.sameLead.key (.turn ho ht)
  | canceled reason now hc hr => exact changes_storeCursor hc rfl (.canceled reason now hr)
  | @counted key' c e hc => exact changes_storeCursor hc (c.sameLead_counted e).key (.counted c e)
  | kept hc => exact changes_storeCursor hc rfl (.none _)
  | entered id campaign now nextId leads ho hg hn =>
    show Changes _ _ _ _ _ ((w.cursors.addNew _).find? key)
    rw [CursorStore.find?_addNew]
    split
    · next e => rw [e]; exact hn ▸ .entered ho hg
    · exact .none _
  | activated => exact .none _
  | status => exact .none _
  | booked hb => rw [hb.cursors]; exact .none _
  | mailed => exact .none _

/-- A stored cursor stays stored, for the same lead in the same version and campaign. -/
theorem Shift.stored (h : w.Shift policy scope v) {key : CursorKey} {c : Cursor}
    (hc : w.cursors.find? key = some c) : ∃ d, v.cursors.find? key = some d ∧ c.SameLead d := by
  have hch := h.changes key
  rw [hc] at hch
  generalize v.cursors.find? key = o at hch
  cases hch with
  | none => exact ⟨c, rfl, .refl c⟩
  | turn _ ht => exact ⟨_, rfl, ht.sameLead⟩
  | canceled reason now => exact ⟨_, rfl, c.sameLead_canceled reason now⟩
  | counted _ e => exact ⟨_, rfl, c.sameLead_counted e⟩

theorem Course.stored (h : w.Course policy scope v) {key : CursorKey} {c : Cursor}
    (hc : w.cursors.find? key = some c) : ∃ d, v.cursors.find? key = some d ∧ c.SameLead d := by
  refine h.preserves ⟨c, hc, .refl c⟩ ?_
  rintro u v h ⟨d, hd, hsame⟩
  obtain ⟨e, he, hsame'⟩ := h.stored hd
  exact ⟨e, he, hsame.trans hsame'⟩

/-- A cursor that ended stays as it is. -/
theorem Shift.terminal (h : w.Shift policy scope v) {key : CursorKey} {c : Cursor}
    (hc : w.cursors.find? key = some c) (ht : c.state.terminal = true) :
    v.cursors.find? key = some c := by
  have hch := h.changes key
  rw [hc] at hch
  generalize v.cursors.find? key = o at hch
  cases hch with
  | none => rfl
  | turn _ hturn => rw [hturn.running] at ht; cases ht
  | canceled _ _ hr => rw [hr] at ht; cases ht
  | counted => rw [Cursor.counted_of_terminal ht]

theorem Course.terminal (h : w.Course policy scope v) {key : CursorKey} {c : Cursor}
    (hc : w.cursors.find? key = some c) (ht : c.state.terminal = true) :
    v.cursors.find? key = some c :=
  h.preserves hc fun _ _ h hc => h.terminal hc ht

/-- A cursor outside the scope is at most canceled or counted on. -/
theorem Course.canceled_or_counted (h : w.Course policy scope v) {key : CursorKey}
    (hk : ¬ scope.turns key) {c : Cursor} (hc : w.cursors.find? key = some c) :
    ∃ d, v.cursors.find? key = some d ∧
      (d.state = .canceled ∨ d = { c with counters := d.counters }) := by
  refine h.preserves ⟨c, hc, .inr rfl⟩ ?_
  rintro u v h ⟨d, hd, hcanceled | heq⟩
  · exact ⟨d, h.terminal hd (by rw [hcanceled]; rfl), .inl hcanceled⟩
  · have hch := h.changes key
    rw [hd] at hch
    generalize v.cursors.find? key = o at hch
    cases hch with
    | none => exact ⟨d, rfl, .inr heq⟩
    | turn ho => exact absurd ho hk
    | canceled => exact ⟨_, rfl, .inl rfl⟩
    | counted _ e => exact ⟨_, rfl, .inr (by rw [Cursor.counted_eq, heq])⟩

theorem Course.idled (h : w.Course policy scope v) {key : CursorKey} (hk : ¬ scope.turns key)
    {c : Cursor} (hc : w.cursors.find? key = some c) :
    ∃ d, v.cursors.find? key = some d ∧ c.Idled d := by
  obtain ⟨d, hd, hcanceled | heq⟩ := h.canceled_or_counted hk hc
  · exact ⟨d, hd, .inl (by rw [hcanceled]; rfl)⟩
  · exact ⟨d, hd, .inr heq⟩

/-- The history of a cursor only grows. -/
theorem Course.history (h : w.Course policy scope v) {key : CursorKey} {c d : Cursor}
    (hc : w.cursors.find? key = some c) (hd : v.cursors.find? key = some d) :
    c.history <+: d.history := by
  suffices ∃ d, v.cursors.find? key = some d ∧ c.history <+: d.history by
    obtain ⟨d', hd', hgrown⟩ := this
    exact Option.some.inj (hd'.symm.trans hd) ▸ hgrown
  refine h.preserves ⟨c, hc, List.prefix_rfl⟩ ?_
  rintro u v h ⟨d, hd, hgrown⟩
  have hch := h.changes key
  rw [hd] at hch
  generalize v.cursors.find? key = o at hch
  cases hch with
  | none => exact ⟨d, rfl, hgrown⟩
  | turn _ ht => exact ⟨_, rfl, hgrown.trans ht.history⟩
  | canceled => exact ⟨_, rfl, hgrown.trans (List.prefix_append _ _)⟩
  | counted _ e => exact ⟨_, rfl, by rw [Cursor.counted_eq]; exact hgrown⟩

/-- A cursor outside the scope was there before. -/
theorem Course.found (h : w.Course policy scope v) {key : CursorKey} (hk : ¬ scope.turns key)
    {d : Cursor} (hd : v.cursors.find? key = some d) :
    ∃ c, w.cursors.find? key = some c ∧ c.Idled d := by
  cases hc : w.cursors.find? key with
  | some c =>
    obtain ⟨d', hd', hidle⟩ := h.idled hk hc
    rw [hd] at hd'
    exact ⟨c, rfl, Option.some.inj hd' ▸ hidle⟩
  | none =>
    have hnone : v.cursors.find? key = none := by
      refine h.preserves hc fun u v h hu => ?_
      have hch := h.changes key
      rw [hu] at hch
      generalize v.cursors.find? key = o at hch
      cases hch with
      | none => rfl
      | entered ho => exact absurd ho hk
    rw [hd] at hnone
    cases hnone

/-! ## Soundness -/

/-- A world in which every cursor is well formed. -/
def Sound (w : World) : Prop :=
  ∀ key c, w.cursors.find? key = some c → c.WellFormed w.flows

theorem sound_empty (nextId : Nat) : (empty nextId).Sound := by
  intro key c hc
  cases hc

/-- The version of a stored cursor is known in a sound world. -/
theorem Sound.version (hw : w.Sound) {key : CursorKey} {c : Cursor}
    (hc : w.cursors.find? key = some c) : ∃ g, w.flows.find? key.flowId = some g := by
  obtain ⟨g, node, hat, -⟩ := (hw key c hc).placed
  rw [← CursorStore.key_eq_of_find? hc]
  exact ⟨g, hat.version⟩

theorem Changes.wellFormed {flows : FlowStore} {key : CursorKey} {o o' : Option Cursor}
    (h : Changes policy scope flows key o o') (ho : ∀ c, o = some c → c.WellFormed flows)
    {d : Cursor} (hd : o' = some d) : d.WellFormed flows := by
  cases h with
  | none => exact ho d hd
  | @turn c d' _ ht =>
    rw [← Option.some.inj hd]
    exact (ho c rfl).turn ht
  | @canceled c reason now hr =>
    rw [← Option.some.inj hd]
    exact (ho c rfl).canceled hr reason now
  | counted c e =>
    rw [← Option.some.inj hd]
    exact (ho c rfl).counted e
  | @entered id campaign leadId now g _ hg =>
    rw [← Option.some.inj hd]
    exact .new hg g.node?_entry

/-- Every small step of a sound world leads to a sound one. -/
theorem Shift.sound (h : w.Shift policy scope v) (hw : w.Sound) : v.Sound := by
  intro key d hd
  exact ((h.changes key).wellFormed (hw key) hd).mono h.grows

theorem Course.sound (h : w.Course policy scope v) (hw : w.Sound) : v.Sound :=
  h.preserves hw fun _ _ h => h.sound

/-! ## Cursors in their versions -/

/-- A fact about every cursor in its version of the flow. -/
def Each (P : Graph → Cursor → Prop) (w : World) : Prop :=
  ∀ key c g, w.cursors.find? key = some c → w.flows.find? c.flowId = some g → P g c

theorem each_empty (P : Graph → Cursor → Prop) (nextId : Nat) : (empty nextId).Each P := by
  intro key c g hc
  cases hc

/-- A fact that holds of new cursors, and goes on holding as cursors take turns, are canceled and are
counted on, goes on holding of every cursor of a sound world. -/
theorem Shift.each {P : Graph → Cursor → Prop} (h : w.Shift policy scope v) (hsound : w.Sound)
    (hnew : ∀ g id campaign leadId now, P g (Engine.newCursor id g campaign leadId now))
    (hturn : ∀ g c d, w.flows.find? c.flowId = some g → c.WellFormed w.flows →
      c.Turn policy w.flows d → P g c → P g d)
    (hcanceled : ∀ g c reason now, c.state.terminal = false → P g c →
      P g (Change.canceled reason now c))
    (hcounted : ∀ g c e, P g c → P g (World.counted e c)) (hw : w.Each P) : v.Each P := by
  intro key c g hc hg
  have hch := h.changes key
  rw [hc] at hch
  generalize ho : w.cursors.find? key = o at hch
  -- The version of a stored cursor stays what it was.
  have hversion : ∀ b, o = some b → b.flowId = c.flowId → w.flows.find? b.flowId = some g := by
    rintro b rfl hb
    obtain ⟨g', node, hat, -⟩ := (hsound key b ho).placed
    have hgrown := h.grows _ _ hat.version
    rw [hb, hg] at hgrown
    rw [hat.version, hgrown]
  cases hch with
  | none => exact hw key c g ho (hversion c rfl rfl)
  | @turn b _ _ ht =>
    have hb := hversion b rfl (congrArg CursorKey.flowId ht.sameLead.key).symm
    exact hturn g b c hb (hsound key b ho) ht (hw key b g ho hb)
  | @canceled b reason now hr => exact hcanceled g b reason now hr (hw key b g ho (hversion b rfl rfl))
  | counted b e =>
    have hb := hversion b rfl (congrArg CursorKey.flowId (b.sameLead_counted e).key).symm
    exact hcounted g b e (hw key b g ho hb)
  | @entered id campaign leadId now g' _ hg' =>
    have hgrown := h.grows _ _ hg'
    obtain rfl : g = g' := Option.some.inj (hg.symm.trans hgrown)
    exact hnew g id campaign leadId now

/-! ## Timers -/

/-- Every small step keeps the timers exact. -/
theorem Shift.timersExact (h : w.Shift policy scope v) (hw : w.cursors.TimersExact) :
    v.cursors.TimersExact := by
  have hstore : ∀ {key c d}, w.cursors.find? key = some c → c.SameLead d →
      (w.storeCursor c d).cursors.TimersExact := by
    intro key c d hc hd
    exact hw.amend (CursorStore.key_eq_of_find? hc ▸ hc) hd.key hd.id
  cases h with
  | turn _ hc ht => exact hstore hc ht.sameLead
  | canceled reason now hc => exact hstore hc (Cursor.sameLead_canceled reason now _)
  | @counted key c e hc => exact hstore hc (c.sameLead_counted e)
  | kept hc => exact hstore hc (.refl _)
  | entered id campaign now nextId leads _ _ hn => exact hw.addNew hn
  | activated => exact hw
  | status => exact hw
  | booked hb => exact hb.cursors ▸ hw
  | mailed => exact hw

theorem Course.timersExact (h : w.Course policy scope v) (hw : w.cursors.TimersExact) :
    v.cursors.TimersExact :=
  h.preserves hw fun _ _ h => h.timersExact

end World

end MailCampaign
