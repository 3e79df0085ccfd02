import MailCampaign.World.Control
import Mathlib.Order.Defs.Unbundled

/-!
# Changes that keep to a relation

A change keeps to a preorder of worlds when it leads from every world to one that stands in the
relation to it, fault or not. Changes that are put together from such changes are such changes.
-/

namespace MailCampaign.Change

variable {α β : Type} {R : World → World → Prop}

/-- A change that leads from every world to a related one. -/
def Keeps (R : World → World → Prop) (c : Change α) : Prop := ∀ w : World, R w (c.on w).2

namespace Keeps

theorem mono {R' : World → World → Prop} {c : Change α} (hc : c.Keeps R)
    (h : ∀ w v : World, R w v → R' w v) : c.Keeps R' := fun w => h _ _ (hc w)

theorem apply {f : World → World} (h : ∀ w : World, R w (f w)) : (Change.apply f).Keeps R := h

/-- A change that looks at the world first. -/
theorem get {f : World → Change α} (hf : ∀ w : World, R w ((f w).on w).2) :
    (MonadState.get >>= f : Change α).Keeps R := by
  intro w
  rw [on_bind_ok (on_get w)]
  exact hf w

theorem discard {c : Change α} (hc : c.Keeps R) : (discard c).Keeps R := by
  intro w
  rw [on_discard]
  exact hc w

variable [IsPreorder World R]

theorem pure (a : α) : (pure a : Change α).Keeps R := fun w => refl_of R w

theorem need (e : Fault) (o : Option α) : (need e o).Keeps R := by
  cases o with
  | none => exact fun w => refl_of R w
  | some a => exact fun w => refl_of R w

theorem bind {c : Change α} {f : α → Change β} (hc : c.Keeps R) (hf : ∀ a, (f a).Keeps R) :
    (c >>= f).Keeps R := by
  intro w
  have hw := hc w
  rw [on_bind]
  rcases hr : c.on w with ⟨a | a, v⟩ <;> rw [hr] at hw
  · exact hw
  · exact trans_of R hw (hf a v)

theorem cursor (key : CursorKey) : (Change.cursor key).Keeps R := get fun _ => need _ _ _

/-! ## Stopping leads -/

variable {e : Engagement} {now : Instant}

theorem cancelAll {reason : String} (hcancel : ∀ key, (cancel key reason now).Keeps R)
    (keys : List CursorKey) : (cancelAll reason now keys).Keeps R := by
  induction keys with
  | nil => exact pure _
  | cons key rest ih => exact (hcancel key).bind fun _ => ih.bind fun _ => pure _

theorem ingestHalting (hreceive : (receive e now).Keeps R)
    (hcount : (Change.apply (·.count e none now)).Keeps R)
    (hcancel : ∀ key, (cancel key ("lead " ++ e.kind.name) now).Keeps R)
    (hsettle : (settle e.key).Keeps R) : (ingestHalting e now).Keeps R := by
  have hhalt : (haltLead e now).Keeps R :=
    get fun w => ((cancelAll hcancel _).bind fun _ => pure _) w
  refine hreceive.bind fun first => ?_
  cases first with
  | false => exact pure _
  | true => exact hcount.bind fun _ => hhalt.bind fun _ => hsettle.bind fun _ => pure _

end Keeps

end MailCampaign.Change
