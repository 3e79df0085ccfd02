import MailCampaign.Proofs.Engine.Deed
import MailCampaign.Proofs.World.Local

/-!
# Dispatches that keep to a realm

A mailer serves leads separately when its answer to a lead depends on nothing but the mails it was
handed for that lead before, when it gives no id to two leads, and when nothing happens while it is
at work. A typesetter is steady when it renders alike whatever it was asked before. With such a mailer
and such a typesetter a dispatch keeps to the realm of its key: the cursor, the ids that the mailer
gives to the lead, and the mails to the lead. To the mailer it does nothing that shows to other leads.
-/

namespace MailCampaign

variable {σ τ : Type}

/-- A mailer may give an id to a lead. -/
def Mailer.Gives (mailer : Mailer σ) (leadId id : String) : Prop :=
  ∃ state lead mail, lead.id = leadId ∧ (mailer.send state lead mail).1.result = .ok id

/-- What a mailer remembers of a lead is all that its answers to the lead depend on, and it changes
with the mails to the lead alone. No id goes to two leads. -/
structure Mailer.Separate (mailer : Mailer σ) (memory : σ → String → τ) : Prop where
  quiet : mailer.Quiet
  look : ∀ state scene w, memory (mailer.look state scene w) = memory state
  result : ∀ s t lead mail, memory s lead.id = memory t lead.id →
    (mailer.send s lead mail).1.result = (mailer.send t lead mail).1.result
  own : ∀ s t lead mail, memory s lead.id = memory t lead.id →
    memory (mailer.send s lead mail).2 lead.id = memory (mailer.send t lead mail).2 lead.id
  others : ∀ s lead mail leadId, leadId ≠ lead.id →
    memory (mailer.send s lead mail).2 leadId = memory s leadId
  distinct : ∀ id leadId leadId', mailer.Gives leadId id → mailer.Gives leadId' id →
    leadId = leadId'

/-- A typesetter that renders alike whatever it remembers, and leaves alone what the mailer remembers of
leads. -/
structure Typesetter.Steady (typesetter : Typesetter σ) (memory : σ → String → τ) : Prop where
  look : ∀ state w, memory (typesetter.look state w) = memory state
  result : ∀ s t name fields,
    (typesetter.render s name fields).1 = (typesetter.render t name fields).1
  own : ∀ state name fields, memory (typesetter.render state name fields).2 = memory state

/-- A renderer without state is steady. -/
theorem Renderer.steady (renderer : Renderer) (memory : σ → String → τ) :
    (renderer : Typesetter σ).Steady memory :=
  ⟨fun _ _ => rfl, fun _ _ _ _ => rfl, fun _ _ _ => rfl⟩

/-- The realm of a cursor: its own state, the counting of its mails and the mails to its lead. -/
def Mailer.realm (mailer : Mailer σ) (key : CursorKey) : Realm where
  key := key
  counts := fun k => ∃ id, mailer.Gives key.leadId id ∧ k = sentKey id
  leads := (· = key.leadId)

/-- Cursors of different leads have realms that are apart. -/
theorem Mailer.Separate.apart {mailer : Mailer σ} {memory : σ → String → τ}
    (h : mailer.Separate memory) {key key' : CursorKey} (hne : key.leadId ≠ key'.leadId) :
    (mailer.realm key).Apart (mailer.realm key') where
  key := fun he => hne (congrArg CursorKey.leadId he)
  counts := by
    rintro k ⟨id, hgives, rfl⟩ ⟨id', hgives', hid⟩
    obtain rfl := sentKey_inj hid
    exact hne (h.distinct id _ _ hgives hgives')
  leads := fun leadId he he' => hne (he.symm.trans he')

/-- Sessions that look the same from the realm of a cursor. -/
structure Session.Looks (mailer : Mailer σ) (memory : σ → String → τ) (key : CursorKey)
    (s t : Session σ) : Prop where
  world : s.world.Looks (mailer.realm key) t.world
  memory : memory t.mailer key.leadId = memory s.mailer key.leadId

theorem Session.Looks.refl (mailer : Mailer σ) (memory : σ → String → τ) (key : CursorKey)
    (s : Session σ) : s.Looks mailer memory key s := ⟨.refl _ _, rfl⟩

namespace Engine

variable {α β : Type} {memory : σ → String → τ} {mailer : Mailer σ} {key : CursorKey}

/-- An operation comes to a result in a session, does some acts to its world, and leaves the mailer
with a memory of one lead and its former memory of the others. -/
structure Does (memory : σ → String → τ) (key : CursorKey) (e : Engine σ α) (s : Session σ)
    (result : Except Fault α) (acts : List Act) (own : τ) : Prop where
  result : (e.on s).1 = result
  world : (e.on s).2.world = s.world.after acts
  own : memory (e.on s).2.mailer key.leadId = own
  others : ∀ leadId, leadId ≠ key.leadId →
    memory (e.on s).2.mailer leadId = memory s.mailer leadId

/-- An operation that does the same, within the realm of a cursor, in all sessions that look the
same from there. Leads are listed under their ids. -/
def Local (mailer : Mailer σ) (memory : σ → String → τ) (key : CursorKey) (e : Engine σ α) : Prop :=
  ∀ s : Session σ, s.world.leads.Keyed Lead.id → ∃ result acts own,
    (∀ a ∈ acts, a.Within (mailer.realm key)) ∧
      ∀ t, s.Looks mailer memory key t → Does memory key e t result acts own

namespace Local

theorem lift {c : Change α} (hc : c.Local (mailer.realm key)) :
    (liftM c : Engine σ α).Local mailer memory key := by
  intro s _
  obtain ⟨result, acts, hin, hon⟩ := hc s.world
  refine ⟨result, acts, memory s.mailer key.leadId, hin, fun t ht => ?_⟩
  have hc := hon t.world ht.world
  exact ⟨by rw [on_lift, hc], by rw [on_lift, hc], ht.memory, fun _ _ => rfl⟩

theorem pure (a : α) : (pure a : Engine σ α).Local mailer memory key := lift (.pure a)

theorem throw (x : Fault) : (throw x : Engine σ α).Local mailer memory key := lift (.throw x)

/-- An operation, and what follows from what it came to. -/
theorem followed {e : Engine σ α} {d : Engine σ β} (f : Except Fault α → Engine σ β)
    (he : e.Local mailer memory key) (hf : ∀ s, (f (e.on s).1).Local mailer memory key)
    (hd : ∀ t, d.on t = (f (e.on t).1).on (e.on t).2) : d.Local mailer memory key := by
  intro s hs
  obtain ⟨_, acts, own, hin, hdoes⟩ := he s hs
  have hself := hdoes s (.refl mailer memory key s)
  have hleads : (e.on s).2.world.leads.Keyed Lead.id := by
    rw [hself.world, World.leads_after]
    exact hs
  obtain ⟨result, acts', own', hin', hdoes'⟩ := hf s (e.on s).2 hleads
  refine ⟨result, acts ++ acts', own', fun b hb => ?_, fun t ht => ?_⟩
  · exact (List.mem_append.1 hb).elim (hin b) (hin' b)
  · have hdid := hdoes t ht
    have hlooks : (e.on s).2.Looks mailer memory key (e.on t).2 := by
      refine ⟨?_, hdid.own.trans hself.own.symm⟩
      rw [hdid.world, hself.world]
      exact ht.world.after acts
    obtain ⟨hresult, hworld, hown, hothers⟩ := hdoes' _ hlooks
    have hon : d.on t = (f (e.on s).1).on (e.on t).2 := by
      rw [hd, hdid.result, hself.result]
    refine ⟨by rw [hon, hresult], ?_, by rw [hon, hown], fun leadId hl => ?_⟩
    · rw [hon, hworld, hdid.world, World.after_append]
    · rw [hon]
      exact (hothers leadId hl).trans (hdid.others leadId hl)

/-- An operation, and what follows from a result that it may come to. -/
theorem bind_of {e : Engine σ α} {f : α → Engine σ β} (he : e.Local mailer memory key)
    (hf : ∀ a s t, e.on s = (.ok a, t) → (f a).Local mailer memory key) :
    (e >>= f).Local mailer memory key := by
  refine he.followed (fun | .ok a => f a | .error x => MonadExcept.throw x) (fun s => ?_)
    fun t => ?_
  · rcases h : e.on s with ⟨x | a, t⟩
    · exact throw x
    · exact hf a s t h
  · rw [on_bind]
    rcases e.on t with ⟨x | a, u⟩ <;> rfl

theorem bind {e : Engine σ α} {f : α → Engine σ β} (he : e.Local mailer memory key)
    (hf : ∀ a, (f a).Local mailer memory key) : (e >>= f).Local mailer memory key :=
  he.bind_of fun a _ _ _ => hf a

theorem tryCatch {e : Engine σ α} {f : Fault → Engine σ α} (he : e.Local mailer memory key)
    (hf : ∀ x, (f x).Local mailer memory key) :
    (MonadExcept.tryCatch e f).Local mailer memory key := by
  refine he.followed (fun | .ok a => Pure.pure a | .error x => f x) (fun s => ?_) fun t => ?_
  · rcases e.on s with ⟨x | a, t⟩
    · exact hf x
    · exact pure a
  · refine (on_tryCatch e f t).trans ?_
    rcases e.on t with ⟨x | a, u⟩ <;> rfl

theorem map {e : Engine σ α} (f : α → β) (he : e.Local mailer memory key) :
    (f <$> e).Local mailer memory key := by
  rw [map_eq_pure_bind]
  exact he.bind fun a => pure (f a)

theorem discard {e : Engine σ α} (he : e.Local mailer memory key) :
    (Functor.discard e).Local mailer memory key := he.map _

/-- What is done upon a look at the realm. -/
theorem world_bind {f : World → Engine σ α}
    (hsame : ∀ w v : World, w.Looks (mailer.realm key) v → f v = f w)
    (hf : ∀ w : World, w.leads.Keyed Lead.id → (f w).Local mailer memory key) :
    (world >>= f).Local mailer memory key := by
  intro s hs
  obtain ⟨result, acts, own, hin, hdoes⟩ := hf s.world hs s hs
  refine ⟨result, acts, own, hin, fun t ht => ?_⟩
  obtain ⟨hr, hw, ho, hothers⟩ := hdoes t ht
  have hon : (world >>= f).on t = (f s.world).on t := by
    rw [on_bind_ok (on_world t), hsame _ _ ht.world]
  exact ⟨by rw [hon, hr], by rw [hon, hw], by rw [hon, ho], by rw [hon]; exact hothers⟩

end Local

/-! ## Steps -/

variable {svc : Services σ} {g : Graph} {c : Cursor} {node : Node} {trigger : Trigger}
  {now : Instant}

/-- While a quiet mailer is at work nothing happens. -/
theorem on_deliver (h : mailer.Quiet) (lead : Lead) (mail : Template) (t : Session σ) :
    (deliver mailer key lead mail now).on t =
      (.ok (mailer.send (looked mailer (.call key now) t).mailer lead mail).1.result,
        handedOver mailer lead mail (looked mailer (.call key now) t)) := by
  show (_, List.foldl (disturbed mailer lead now) _ _) = _
  rw [h]
  rfl

/-- A mail to the lead of the cursor is handed over. -/
theorem deliver_local (h : mailer.Separate memory) {lead : Lead} (hl : lead.id = key.leadId)
    (mail : Template) : (deliver mailer key lead mail now).Local mailer memory key := by
  intro s _
  let answer := mailer.send (looked mailer (.call key now) s).mailer lead mail
  refine ⟨.ok answer.1.result, [.sent ⟨lead, mail, answer.1.result⟩], memory answer.2 lead.id,
    by simpa [Act.Within, Mailer.realm] using hl, fun t ht => ?_⟩
  have hlook : ∀ u : Session σ, memory (looked mailer (.call key now) u).mailer = memory u.mailer :=
    fun u => h.look _ _ _
  have hsame : memory (looked mailer (.call key now) t).mailer lead.id =
      memory (looked mailer (.call key now) s).mailer lead.id := by
    rw [hlook, hlook, hl]
    exact ht.memory
  refine ⟨?_, ?_, ?_, fun leadId hne => ?_⟩ <;> rw [on_deliver h.quiet]
  · exact congrArg Except.ok (h.result _ _ lead mail hsame)
  · show World.emit _ (.submission ⟨lead, mail, _⟩) = _
    rw [h.result _ _ lead mail hsame]
    rfl
  · rw [← hl]
    exact h.own _ _ lead mail hsame
  · exact (h.others _ lead mail leadId (hl ▸ hne)).trans (congrFun (hlook t) leadId)

/-- The id of a mail that was accepted is one that the mailer gives to its lead. -/
theorem gives_of_deliver (h : mailer.Quiet) {lead : Lead} {mail : Template} {s t : Session σ}
    {id : String} (hon : (deliver mailer key lead mail now).on s = (.ok (.ok id), t)) :
    mailer.Gives lead.id id := by
  rw [on_deliver h] at hon
  exact ⟨_, lead, mail, rfl, Except.ok.inj (congrArg Prod.fst hon)⟩

/-- A steady typesetter renders the same for the same lead. -/
theorem render_local {typesetter : Typesetter σ} (hr : typesetter.Steady memory) (mail : Mail)
    (lead : Lead) : (render typesetter mail lead).Local mailer memory key := by
  intro s _
  unfold render
  cases mail.template with
  | none => exact ⟨_, [], memory s.mailer key.leadId, fun _ h => absurd h List.not_mem_nil,
      fun t ht => ⟨rfl, rfl, ht.memory, fun _ _ => rfl⟩⟩
  | some name =>
    have hsame : ∀ t : Session σ, memory (typesetter.render (typesetter.look t.mailer t.world) name
        lead.fields).2 = memory t.mailer := fun t => (hr.own _ _ _).trans (hr.look _ _)
    refine ⟨.ok (typesetter.render s.mailer name lead.fields).1, [], memory s.mailer key.leadId,
      fun _ h => absurd h List.not_mem_nil, fun t ht => ⟨congrArg Except.ok (hr.result _ _ _ _), rfl,
        ?_, fun leadId _ => congrFun (hsame t) leadId⟩⟩
    exact (congrFun (hsame t) key.leadId).trans ht.memory

/-- The mail of a step is sent within the realm of its cursor. -/
theorem sendMail_local (h : svc.mailer.Separate memory) (hr : svc.renderer.Steady memory)
    (hk : c.key = key) {mail : Mail} :
    (sendMail svc g c node mail now).Local svc.mailer memory key := by
  subst hk
  refine .world_bind (fun w v hv => by rw [hv.leads]) fun w hw => ?_
  cases hlead : w.leads.find? c.leadId with
  | none => exact .lift (Change.fail_local rfl)
  | some lead =>
    have hid : lead.id = c.leadId := hw _ _ hlead
    dsimp only
    unfold attempt
    rw [bind_assoc]
    refine (render_local hr mail lead).bind fun rendered => ?_
    cases rendered with
    | error x =>
      refine (Local.pure _).bind_of fun result s u hon =>
        .lift (Change.settleMail_local rfl fun id hr => ?_)
      cases hon
      cases hr
    | ok t =>
      refine (deliver_local h hid t).bind_of fun result s u hon =>
        .lift (Change.settleMail_local rfl fun id hr => ?_)
      obtain rfl := hr
      have hgives : svc.mailer.Gives c.key.leadId id := by
        rw [← show lead.id = c.key.leadId from hid]
        exact gives_of_deliver h.quiet hon
      exact ⟨id, hgives, rfl⟩

theorem ignoreClash_local {e : Engine σ Outcome} (he : e.Local mailer memory key) :
    (ignoreClash e).Local mailer memory key := by
  refine he.tryCatch fun x => ?_
  split
  · exact .pure _
  · exact .throw _

theorem perform_local (h : svc.mailer.Separate memory) (hr : svc.renderer.Steady memory)
    (hk : c.key = key) :
    (perform svc g c node trigger now).Local svc.mailer memory key := by
  rw [perform_eq]
  split
  · exact sendMail_local h hr hk
  · exact .lift (Change.handle_local hk)

theorem execute_local (h : svc.mailer.Separate memory) (hr : svc.renderer.Steady memory) :
    (execute svc g key trigger now).Local svc.mailer memory key := by
  refine (Local.lift (.cursor rfl)).bind_of fun c s t hc => ?_
  split
  · exact .pure _
  · split
    · exact .lift (Change.fail_local rfl)
    · have hon : (Change.cursor key).on s.world = (.ok c, _) := Prod.ext (Prod.mk.inj hc).1 rfl
      exact ignoreClash_local (perform_local h hr (Change.cursor_key hon))

/-- One step of a cursor keeps to its realm. -/
theorem dispatchOnce_local (h : svc.mailer.Separate memory) (hr : svc.renderer.Steady memory) :
    (dispatchOnce svc key trigger now).Local svc.mailer memory key := by
  refine (Local.lift (.cursor rfl)).bind fun c => ?_
  refine .world_bind (fun w v hv => by rw [hv.status, hv.flows]) fun w _ => ?_
  split
  · exact .pure _
  · split
    · exact (Local.lift (Change.cancel_local rfl)).discard.bind fun _ => .pure _
    · exact (Local.lift (.need _ _)).bind fun g => execute_local h hr

theorem dispatchSteps_local (h : svc.mailer.Separate memory) (hr : svc.renderer.Steady memory)
    (n : Nat) (trigger : Trigger) :
    (dispatchSteps svc key now n trigger).Local svc.mailer memory key := by
  induction n generalizing trigger with
  | zero => exact .pure _
  | succ n ih =>
    refine (dispatchOnce_local h hr).bind fun outcome => ?_
    cases outcome with
    | moved => exact ih .enter
    | _ => exact .pure _

/-- **A dispatch keeps to the realm of its key.** -/
theorem dispatch_local (h : svc.mailer.Separate memory) (hr : svc.renderer.Steady memory) :
    (dispatch svc key trigger now).Local svc.mailer memory key :=
  .world_bind (fun w v hv => by simp only [stepLimit, hv.flows]) fun _ _ =>
    dispatchSteps_local h hr _ trigger

theorem kept_local {e : Engine σ α} (he : e.Local mailer memory key) :
    (kept e).Local mailer memory key := by
  refine (he.map Except.ok).tryCatch fun x => ?_
  split
  · exact .throw _
  · exact .pure _

end Engine

end MailCampaign
