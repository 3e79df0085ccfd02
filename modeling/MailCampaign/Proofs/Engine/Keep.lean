import MailCampaign.Engine.Dispatch
import MailCampaign.Proofs.World.Keep

/-!
# Operations that keep to a relation

An operation keeps to a preorder of sessions when it leads from every session to one that stands in
the relation to it. The operations of the engine are put together from single steps of cursors and
from changes of the world, so it is enough to know this of those.
-/

namespace MailCampaign.Engine

variable {σ α β : Type} {R : Session σ → Session σ → Prop}

/-- An operation that leads from every session to a related one. -/
def Keeps (R : Session σ → Session σ → Prop) (e : Engine σ α) : Prop :=
  ∀ s : Session σ, R s (e.on s).2

namespace Keeps

theorem map {e : Engine σ α} (f : α → β) (he : e.Keeps R) : (f <$> e).Keeps R := by
  intro s
  rw [on_map]
  exact he s

theorem discard {e : Engine σ α} (he : e.Keeps R) : (discard e).Keeps R := he.map _

/-- An operation that looks at the world first. -/
theorem world {f : World → Engine σ α} (hf : ∀ w, (f w).Keeps R) : (Engine.world >>= f).Keeps R := by
  intro s
  rw [on_bind_ok (on_world s)]
  exact hf s.world s

variable [IsPreorder (Session σ) R]

theorem pure (a : α) : (pure a : Engine σ α).Keeps R := fun s => refl_of R s

theorem throw (x : Fault) : (throw x : Engine σ α).Keeps R := fun s => refl_of R s

theorem bind {e : Engine σ α} {f : α → Engine σ β} (he : e.Keeps R) (hf : ∀ a, (f a).Keeps R) :
    (e >>= f).Keeps R := by
  intro s
  have hs := he s
  rw [on_bind]
  rcases hr : e.on s with ⟨x | a, t⟩ <;> rw [hr] at hs
  · exact hs
  · exact trans_of R hs (hf a t)

theorem tryCatch {e : Engine σ α} {f : Fault → Engine σ α} (he : e.Keeps R)
    (hf : ∀ x, (f x).Keeps R) : (tryCatch e f).Keeps R := by
  intro s
  have hs := he s
  rw [on_tryCatch]
  rcases hr : e.on s with ⟨x | a, t⟩ <;> rw [hr] at hs
  · exact trans_of R hs (hf x t)
  · exact hs

theorem kept {e : Engine σ α} (he : e.Keeps R) : (kept e).Keeps R := by
  refine tryCatch (he.map _) fun x => ?_
  cases x with
  | outOfRange => exact throw _
  | _ => exact pure _

variable {svc : Services σ} {key : CursorKey} {trigger : Trigger} {now : Instant}

/-- An attempt at a mail keeps to a relation when the rendering and every delivery do. -/
theorem attempt {mail : Mail} {lead : Lead} (hrender : (render svc.renderer mail lead).Keeps R)
    (hdeliver : ∀ t, (deliver svc.mailer key lead t now).Keeps R) :
    (attempt svc key mail lead now).Keeps R := by
  refine hrender.bind fun result => ?_
  cases result with
  | ok t => exact hdeliver t
  | error e => exact pure _

/-! ## Dispatch -/

theorem dispatchSteps (hkey : ∀ trigger, (dispatchOnce svc key trigger now).Keeps R) (n : Nat)
    (trigger : Trigger) : (dispatchSteps svc key now n trigger).Keeps R := by
  induction n generalizing trigger with
  | zero => exact pure _
  | succ n ih =>
    refine (hkey trigger).bind fun outcome => ?_
    cases outcome with
    | moved => exact ih .enter
    | _ => exact pure _

theorem dispatch (hkey : ∀ trigger, (dispatchOnce svc key trigger now).Keeps R)
    (trigger : Trigger) : (dispatch svc key trigger now).Keeps R :=
  world fun _ => dispatchSteps hkey _ trigger

theorem dispatchEach (hdispatch : ∀ key, (Engine.dispatch svc key trigger now).Keeps R)
    (keys : List CursorKey) : (dispatchEach svc trigger now keys).Keeps R := by
  induction keys with
  | nil => exact pure _
  | cons key rest ih => exact (hdispatch key).kept.bind fun _ => ih.bind fun _ => pure _

/-! ## Operations -/

theorem enroll {campaign : Uuid} {lead : Lead}
    (hadd : (liftM (addLead campaign lead now) : Engine σ CursorKey).Keeps R)
    (hdispatch : ∀ key, (Engine.dispatch svc key .enter now).Keeps R)
    (hcursor : ∀ key, (liftM (Change.cursor key) : Engine σ Cursor).Keeps R) :
    (enroll svc campaign lead now).Keeps R :=
  hadd.bind fun key => (hdispatch key).discard.bind fun _ => hcursor key

theorem routeTo {e : Engagement} (hdispatch : ∀ key, (Engine.dispatch svc key (.event e) now).Keeps R)
    (keys : List CursorKey) : (routeTo svc e now keys).Keeps R := by
  induction keys with
  | nil => exact pure _
  | cons key rest ih => exact (hdispatch key).bind fun _ => ih.bind fun _ => pure _

theorem route {e : Engagement} (hdispatch : ∀ key, (Engine.dispatch svc key (.event e) now).Keeps R) :
    (route svc e now).Keeps R := by
  refine world fun w => ?_
  split
  · exact pure _
  · exact (routeTo hdispatch _).bind fun _ => pure _

theorem ingest {e : Engagement}
    (hhalting : (liftM (Change.ingestHalting e now) : Engine σ IngestReport).Keeps R)
    (hreceive : (liftM (Change.receive e now) : Engine σ Bool).Keeps R)
    (hcount : (liftM (Change.apply (·.count e none now)) : Engine σ Unit).Keeps R)
    (hsettle : (liftM (Change.settle e.key) : Engine σ Unit).Keeps R)
    (hdispatch : ∀ key, (Engine.dispatch svc key (.event e) now).Keeps R) :
    (ingest svc e now).Keeps R := by
  unfold Engine.ingest
  split
  · exact hhalting
  · refine hreceive.bind fun first => ?_
    cases first with
    | false => exact pure _
    | true => exact hcount.bind fun _ => (route hdispatch).bind fun _ => hsettle.bind fun _ => pure _

theorem recover (hdispatch : ∀ key, (Engine.dispatch svc key .enter now).Keeps R) :
    (recover svc now).Keeps R :=
  world fun _ => (dispatchEach hdispatch _).discard.bind fun _ => pure _

theorem tick (hdispatch : ∀ key, (Engine.dispatch svc key .timer now).Keeps R)
    (batchSize : UInt64) : (tick svc batchSize now).Keeps R :=
  world fun _ => (dispatchEach hdispatch _).map _

end Keeps

end MailCampaign.Engine
