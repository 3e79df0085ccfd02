import MailCampaign.Proofs.Text.Numeral
import MailCampaign.Proofs.Text.Uuid
import MailCampaign.Signal

/-!
# What the key of a signal tells

A signal without a key of its provider gets one that is made of the id of the mail and the kind of
engagement, or else of the campaign, the lead, the kind and the millisecond, with colons between them.
The ids of mails and leads may hold any text, colons too, or a text that looks like another key.

1. The last part of a key is a kind of engagement or a number. Neither has a colon, so a key falls apart
   at its last colon in one way only (`last_colon`), and no kind of engagement is a number
   (`name_ne_intText`): keys of the two forms differ.
2. Cut off at their last colons, keys of the first form leave the id of the mail. Those of the second
   form are cut once more, before the kind, and then at the first colon, which ends the campaign
   (`first_colon`). What is left is the lead.

So two such keys are equal exactly when the signals tell the same (`Signal.keys_identify`).
-/

namespace MailCampaign

/-! ## Cutting at a separator -/

/-- A list is cut at the first of its separators in one way. -/
theorem append_cons_inj_first {α : Type} {sep : α} {a b x y : List α} (ha : sep ∉ a) (hb : sep ∉ b)
    (h : a ++ sep :: x = b ++ sep :: y) : a = b ∧ x = y := by
  induction a generalizing b with
  | nil =>
    cases b with
    | nil => exact ⟨rfl, (List.cons.inj h).2⟩
    | cons c b => exact absurd ((List.cons.inj h).1 ▸ List.mem_cons_self) hb
  | cons c a ih =>
    cases b with
    | nil => exact absurd ((List.cons.inj h).1 ▸ List.mem_cons_self) ha
    | cons d b =>
      obtain ⟨rfl, hrest⟩ := List.cons.inj h
      obtain ⟨rfl, rfl⟩ := ih (fun hm => ha (List.mem_cons_of_mem _ hm))
        (fun hm => hb (List.mem_cons_of_mem _ hm)) hrest
      exact ⟨rfl, rfl⟩

/-- A list is cut at the last of its separators in one way. -/
theorem append_cons_inj_last {α : Type} {sep : α} {a b x y : List α} (hx : sep ∉ x) (hy : sep ∉ y)
    (h : a ++ sep :: x = b ++ sep :: y) : a = b ∧ x = y := by
  have hreverse : x.reverse ++ sep :: a.reverse = y.reverse ++ sep :: b.reverse := by
    simpa using congrArg List.reverse h
  obtain ⟨hxy, hab⟩ := append_cons_inj_first (by simpa using hx) (by simpa using hy) hreverse
  exact ⟨List.reverse_inj.1 hab, List.reverse_inj.1 hxy⟩

/-- A text without a colon. -/
def Colonless (s : String) : Prop := ':' ∉ s.toList

theorem toList_colon (a b : String) : (a ++ ":" ++ b).toList = a.toList ++ ':' :: b.toList := by
  rw [String.toList_append, String.toList_append, List.append_assoc]
  rfl

theorem first_colon {a b x y : String} (ha : Colonless a) (hb : Colonless b)
    (h : a ++ ":" ++ x = b ++ ":" ++ y) : a = b ∧ x = y := by
  have hlist := congrArg String.toList h
  rw [toList_colon, toList_colon] at hlist
  obtain ⟨hab, hxy⟩ := append_cons_inj_first ha hb hlist
  exact ⟨String.toList_inj.1 hab, String.toList_inj.1 hxy⟩

theorem last_colon {a b x y : String} (hx : Colonless x) (hy : Colonless y)
    (h : a ++ ":" ++ x = b ++ ":" ++ y) : a = b ∧ x = y := by
  have hlist := congrArg String.toList h
  rw [toList_colon, toList_colon] at hlist
  obtain ⟨hab, hxy⟩ := append_cons_inj_last hx hy hlist
  exact ⟨String.toList_inj.1 hab, String.toList_inj.1 hxy⟩

/-! ## Parts of keys -/

theorem EngagementKind.colonless_name (k : EngagementKind) : Colonless k.name := by
  unfold Colonless
  cases k <;> decide +kernel

theorem EngagementKind.name_inj {k l : EngagementKind} (h : k.name = l.name) : k = l := by
  cases k <;> cases l <;> first | rfl | exact absurd h (by decide)

/-- The numeral of an integer consists of digits, but for the sign in front. -/
theorem mem_intNumeral {i : Int} {c : Char} (h : c ∈ intNumeral i) :
    c = '-' ∨ isDigit c = true := by
  unfold intNumeral at h
  split at h
  · rcases List.mem_cons.1 h with rfl | h
    · exact .inl rfl
    · exact .inr (isDigit_of_mem_numeral h)
  · exact .inr (isDigit_of_mem_numeral h)

theorem colonless_intText (i : Int) : Colonless (intText i) := by
  intro h
  rw [intText, String.toList_ofList] at h
  rcases mem_intNumeral h with h | h
  · exact absurd h (by decide)
  · exact absurd h (by decide)

theorem numeral_inj {m n : Nat} (h : numeral m = numeral n) : m = n := by
  rw [← digitsValue_numeral m, h, digitsValue_numeral]

/-- The numeral of a number has no sign. -/
theorem numeral_ne_signed (m n : Nat) : numeral m ≠ '-' :: numeral n := by
  intro h
  have hsign : isDigit '-' = true := isDigit_of_mem_numeral (n := m) (h ▸ List.mem_cons_self)
  exact absurd hsign (by decide)

theorem intText_inj {i j : Int} (h : intText i = intText j) : i = j := by
  have hlist : intNumeral i = intNumeral j := by
    simpa [intText] using congrArg String.toList h
  unfold intNumeral at hlist
  split at hlist <;> split at hlist
  · have := numeral_inj (List.cons.inj hlist).2
    omega
  · exact absurd hlist.symm (numeral_ne_signed _ _)
  · exact absurd hlist (numeral_ne_signed _ _)
  · have := numeral_inj hlist
    omega

/-- A kind of engagement is no number: it has a letter. -/
theorem name_ne_intText (k : EngagementKind) (i : Int) : k.name ≠ intText i := by
  intro h
  have hletter : 'e' ∈ k.name.toList := by cases k <;> decide
  rw [h, intText, String.toList_ofList] at hletter
  exact absurd (mem_intNumeral hletter) (by decide)

namespace Uuid

theorem mem_hexDigits {n v : Nat} {c : Char} (h : c ∈ hexDigits n v) : ∃ d, c = hexChar d := by
  induction n generalizing v with
  | zero => cases h
  | succ n ih =>
    rcases List.mem_append.1 h with h | h
    · exact ih h
    · exact ⟨v, List.mem_singleton.1 h⟩

theorem hexChar_ne_colon (d : Nat) : hexChar d ≠ ':' := by
  have hsmall : ∀ d < 16, hexChar d ≠ ':' := by decide
  have hmod : hexChar d = hexChar (d % 16) := by
    unfold hexChar
    rw [Nat.mod_mod]
  rw [hmod]
  exact hsmall _ (Nat.mod_lt _ (by decide))

theorem colonless_text (u : Uuid) : Colonless u.text := by
  intro h
  rw [text, String.toList_ofList] at h
  have hdigits : ∀ n v, ':' ∉ hexDigits n v := by
    intro n v hmem
    obtain ⟨d, hd⟩ := mem_hexDigits hmem
    exact hexChar_ne_colon d hd.symm
  simp [chars, hdigits] at h

theorem text_inj {u v : Uuid} (h : u.text = v.text) : u = v := by
  have hread : ofText? u.text = ofText? v.text := congrArg ofText? h
  rw [ofText?_text, ofText?_text] at hread
  exact Option.some.inj hread

end Uuid

/-! ## Keys -/

namespace Signal

variable {s t : Signal} {received later : Instant}

/-- The key that is made of the id of a mail. -/
def mailKey (id : String) (kind : EngagementKind) : String := id ++ ":" ++ kind.name

/-- The key that is made of campaign, lead, kind and millisecond. -/
def leadKey (campaign : Uuid) (lead : String) (kind : EngagementKind) (millis : Int) : String :=
  campaign.text ++ ":" ++ lead ++ ":" ++ kind.name ++ ":" ++ intText millis

theorem key_of_provider {k : String} (h : present s.providerKey = some k) (received : Instant) :
    s.key received = k := by
  simp [key, h]

theorem key_of_mail {id : String} (hp : present s.providerKey = none)
    (h : present s.messageId = some id) (received : Instant) :
    s.key received = mailKey id s.kind.engagement := by
  simp [key, hp, h, mailKey]

theorem key_of_lead (hp : present s.providerKey = none) (h : present s.messageId = none)
    (received : Instant) :
    s.key received = leadKey s.campaignId s.leadId s.kind.engagement (s.timeOr received).millis := by
  simp [key, hp, h, leadKey]

theorem mailKey_inj {id id' : String} {k k' : EngagementKind} :
    mailKey id k = mailKey id' k' ↔ id = id' ∧ k = k' := by
  constructor
  · intro h
    obtain ⟨hid, hkind⟩ := last_colon k.colonless_name k'.colonless_name h
    exact ⟨hid, EngagementKind.name_inj hkind⟩
  · rintro ⟨rfl, rfl⟩
    rfl

theorem leadKey_inj {c c' : Uuid} {l l' : String} {k k' : EngagementKind} {m m' : Int} :
    leadKey c l k m = leadKey c' l' k' m' ↔ c = c' ∧ l = l' ∧ k = k' ∧ m = m' := by
  constructor
  · intro h
    obtain ⟨hfront, hmillis⟩ := last_colon (colonless_intText m) (colonless_intText m') h
    obtain ⟨hfront, hkind⟩ := last_colon k.colonless_name k'.colonless_name hfront
    obtain ⟨hcampaign, hlead⟩ := first_colon c.colonless_text c'.colonless_text hfront
    exact ⟨Uuid.text_inj hcampaign, hlead, EngagementKind.name_inj hkind, intText_inj hmillis⟩
  · rintro ⟨rfl, rfl, rfl, rfl⟩
    rfl

/-- Keys of the two forms differ in what follows their last colons. -/
theorem mailKey_ne_leadKey (id : String) (k : EngagementKind) (c : Uuid) (l : String)
    (k' : EngagementKind) (m : Int) : mailKey id k ≠ leadKey c l k' m := by
  intro h
  obtain ⟨-, hlast⟩ := last_colon k.colonless_name (colonless_intText m) h
  exact name_ne_intText k m hlast

/-- A key of its own, the id of a mail or a reported time makes a key independent of the time of receipt. -/
theorem key_eq_of_reported (h : (present s.providerKey).isSome = true ∨
    (present s.messageId).isSome = true ∨ s.time.isSome = true) (received later : Instant) :
    s.key received = s.key later := by
  cases hp : present s.providerKey with
  | some k => rw [key_of_provider hp, key_of_provider hp]
  | none =>
    cases hm : present s.messageId with
    | some id => rw [key_of_mail hp hm, key_of_mail hp hm]
    | none =>
      have htime : s.time.isSome = true := by simpa [hp, hm] using h
      obtain ⟨time, htime⟩ := Option.isSome_iff_exists.1 htime
      rw [key_of_lead hp hm, key_of_lead hp hm, timeOr, timeOr, htime]
      rfl

/-- Two signals, received at these instants, tell the same: they name one mail and one kind of engagement,
or they name no mail, and campaign, lead, kind and millisecond are the same. -/
def TellSame (s t : Signal) (received later : Instant) : Prop :=
  (∃ id, present s.messageId = some id ∧ present t.messageId = some id ∧
    s.kind.engagement = t.kind.engagement) ∨
  present s.messageId = none ∧ present t.messageId = none ∧ s.campaignId = t.campaignId ∧
    s.leadId = t.leadId ∧ s.kind.engagement = t.kind.engagement ∧
    (s.timeOr received).millis = (t.timeOr later).millis

theorem key_eq_key_iff (hs : present s.providerKey = none) (ht : present t.providerKey = none) :
    s.key received = t.key later ↔ TellSame s t received later := by
  unfold TellSame
  cases hms : present s.messageId with
  | some id =>
    rw [key_of_mail hs hms]
    cases hmt : present t.messageId with
    | some id' =>
      rw [key_of_mail ht hmt, mailKey_inj]
      simp [eq_comm]
    | none =>
      rw [key_of_lead ht hmt]
      simp [mailKey_ne_leadKey]
  | none =>
    rw [key_of_lead hs hms]
    cases hmt : present t.messageId with
    | some id' =>
      rw [key_of_mail ht hmt]
      simp [(mailKey_ne_leadKey _ _ _ _ _ _).symm]
    | none =>
      rw [key_of_lead ht hmt, leadKey_inj]
      simp

/-- **Keys identify what signals tell.** Two signals without keys of their providers have the same key,
whenever they are received, exactly when they tell the same. The key of a signal that comes with a key
of its provider, with the id of a mail or with a reported time does not depend on when it is received. -/
theorem keys_identify (s t : Signal) (received later : Instant) :
    (present s.providerKey = none → present t.providerKey = none →
      ((s.toEngagement received).key = (t.toEngagement later).key ↔ TellSame s t received later)) ∧
    ((present s.providerKey).isSome = true ∨ (present s.messageId).isSome = true ∨
        s.time.isSome = true →
      (s.toEngagement received).key = (s.toEngagement later).key) :=
  ⟨fun hs ht => key_eq_key_iff hs ht, fun h => key_eq_of_reported h received later⟩

/-- A signal of a lead whose id looks like the end of a key. -/
def colonLead : Signal where
  kind := .pixelHit
  campaignId := .ofNat 7
  leadId := "ada:opened:0"
  providerKey := some " "
  time := some .epoch

/-- A signal about a mail whose id looks like the key of the other signal. -/
def keyLikeMail : Signal where
  kind := .pixelHit
  campaignId := .ofNat 7
  leadId := "ada"
  messageId := some "00000000-0000-0000-0000-000000000007:ada:opened:0:opened:0"

/-- Ids that look like keys do not make keys equal. -/
theorem keys_identify_colons :
    present colonLead.providerKey = none ∧ present keyLikeMail.providerKey = none ∧
    (colonLead.toEngagement .epoch).key ≠ (keyLikeMail.toEngagement .epoch).key ∧
    (present keyLikeMail.messageId).isSome = true ∧
    ∀ later, (keyLikeMail.toEngagement .epoch).key = (keyLikeMail.toEngagement later).key := by
  have hlead : present colonLead.providerKey = none := by decide
  have hmail : present keyLikeMail.providerKey = none := by decide
  have hid : (present keyLikeMail.messageId).isSome = true := by decide
  refine ⟨hlead, hmail, ?_, hid, fun later =>
    (keys_identify keyLikeMail keyLikeMail .epoch later).2 (.inr (.inl hid))⟩
  intro h
  rcases ((keys_identify colonLead keyLikeMail .epoch .epoch).1 hlead hmail).1 h with
    ⟨id, hs, -⟩ | ⟨-, ht, -⟩
  · cases hs
  · rw [ht] at hid
    cases hid

end Signal

end MailCampaign
