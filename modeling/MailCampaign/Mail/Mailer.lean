import MailCampaign.World.Basic

/-!
# Mailers and typesetters

A mailer hands a mail over for delivery and answers with an id. While it is at work it may look at the
world, as the delivery starts and after each interruption. A typesetter renders the stored templates
before, and may look at the world as it is asked. The two have one state between them, of whatever type
they like.
-/

namespace MailCampaign

/-- What goes on when a mailer looks at the world. -/
inductive Scene where
  /-- The mail of the step of a cursor is handed over. -/
  | call (key : CursorKey) (now : Instant)
  /-- An interruption has just happened. -/
  | interrupted (i : Interruption)

/-- Something that sends mail. -/
structure Mailer (σ : Type) where
  send : σ → Lead → Template → Delivery × σ
  /-- What it remembers of a look at the world. -/
  look : σ → Scene → World → σ := fun s _ _ => s

/-- Something that renders stored templates for the fields of a lead. -/
structure Typesetter (σ : Type) where
  render : σ → String → Table String String → Except SendFault Template × σ
  /-- What it remembers of a look at the world. -/
  look : σ → World → σ := fun s _ => s

/-- A renderer sets every template at once and remembers nothing. -/
instance {σ : Type} : Coe Renderer (Typesetter σ) where
  coe renderer := { render := fun s name fields => (renderer name fields, s) }

/-- Renders the templates of a table. -/
def Typesetter.ofTable {σ : Type} (templates : Table String Template) : Typesetter σ :=
  Renderer.ofTable templates

/-- The mailer that delivers nothing and numbers its messages. -/
def logMailer : Mailer Nat where
  send n lead _ :=
    if blankText lead.email then
      (⟨.error (.permanent ("lead " ++ lead.id ++ " has no email address")), []⟩, n)
    else (⟨.ok ("msg-" ++ (Uuid.ofNat n).text), []⟩, n + 1)

end MailCampaign
