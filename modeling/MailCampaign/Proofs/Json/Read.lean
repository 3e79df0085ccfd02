import MailCampaign.Json.Read
import MailCampaign.Proofs.Json.Parse
import MailCampaign.Wire.Basic

/-!
# Decoders that read what was written

A decoder reads a legible value wherever there is room for it: in a text, in memory and among kept
fields. Each way to build a decoder reads what the parts read, a record through its members by name.
-/

namespace MailCampaign

namespace Source

open Json (Legible)

theorem ofJsonItems_eq (l : List Json) : ofJsonItems l = l.map ofJson := by
  induction l with
  | nil => rfl
  | cons j rest ih => rw [ofJsonItems, ih, List.map_cons]

theorem ofJsonFields_eq (l : List (String × Json)) :
    ofJsonFields l = l.map fun f => (some f.1, ofJson f.2) := by
  induction l with
  | nil => rfl
  | cons f rest ih => rw [ofJsonFields, ih, List.map_cons]

theorem keepableItems_eq_true {room : Nat} {l : List Source} (h : ∀ j ∈ l, j.keepable room = true) :
    keepableItems room l = true := by
  induction l with
  | nil => rfl
  | cons j rest ih =>
    simp only [keepableItems, h j List.mem_cons_self, Bool.true_and]
    exact ih fun i hi => h i (List.mem_cons_of_mem j hi)

theorem keepableFields_eq_true {room : Nat} {l : List (String × Json)}
    (h : ∀ f ∈ l, (ofJson f.2).keepable room = true) :
    keepableFields room (ofJsonFields l) = true := by
  induction l with
  | nil => rfl
  | cons f rest ih =>
    simp only [ofJsonFields, keepableFields, h f List.mem_cons_self, Option.isSome_some, Bool.true_and]
    exact ih fun g hg => h g (List.mem_cons_of_mem f hg)

/-- A legible value can be kept as a whole. -/
theorem keepable_ofJson {n : Nat} {j : Json} (h : Legible n j) {room : Nat} (hn : n ≤ room) :
    (ofJson j).keepable room = true := by
  induction h generalizing room with
  | null | bool | int | str => rfl
  | arr _ ih =>
    obtain ⟨room, rfl⟩ := Nat.exists_eq_add_of_lt hn
    rw [ofJson, keepable, ofJsonItems_eq]
    refine keepableItems_eq_true fun s hs => ?_
    obtain ⟨j, hj, rfl⟩ := List.mem_map.1 hs
    exact ih j hj (by omega)
  | obj _ ih =>
    obtain ⟨room, rfl⟩ := Nat.exists_eq_add_of_lt hn
    rw [ofJson, keepable]
    exact keepableFields_eq_true fun f hf => ih f hf (by omega)

end Source

instance : LawfulMonad Reading := LawfulMonad.mk' Reading
  (fun x => by cases x <;> rfl) (fun _ _ => rfl) (fun x _ _ => by cases x <;> rfl)

namespace Json

variable {α β : Type} {n : Nat}

/-- A place with room for that many containers inside one another. -/
def Place.Fits (n : Nat) : Place → Prop
  | .text room => n ≤ room
  | .memory | .buffer => True

/-- Reads a legible value wherever there is room for it. -/
structure Decoder.Reads (d : Decoder α) (n : Nat) (j : Json) (a : α) : Prop where
  legible : j.Legible n
  reads : ∀ p : Place, p.Fits n → d p (.ofJson j) = .value a

/-- A whole text is read as the value it was written for. -/
theorem readText_text {d : Decoder α} {j : Json} {a : α} (h : d.Reads n j a) (hn : n ≤ 127) :
    readText d j.text = .value a := by
  rw [readText, Source.ofText_text h.legible, readWhole, h.reads .start hn]
  rfl

theorem readBytes_text {d : Decoder α} {j : Json} {a : α} (h : d.Reads n j a) (hn : n ≤ 127) :
    readBytes d (Utf8.bytes j.text) = .value a := by
  rw [readBytes, Source.ofBytes_text h.legible, readWhole, h.reads .start hn]
  rfl

namespace Decoder

/-- Where there is room for one more container, there is one inside. -/
theorem enter_of_fits {p : Place} (h : p.Fits (n + 1)) :
    ∃ q : Place, q.Fits n ∧ ∀ inside : Place → Reading α, enter p inside = inside q := by
  cases p with
  | text room =>
    obtain ⟨room, rfl⟩ := Nat.exists_eq_add_of_lt h
    exact ⟨.text (n + room), Nat.le_add_right n room, fun _ => rfl⟩
  | memory => exact ⟨.memory, trivial, fun _ => rfl⟩
  | buffer => exact ⟨.buffer, trivial, fun _ => rfl⟩

/-! ## Single values -/

theorem reads_string (s : String) : string.Reads n (.str s) s := ⟨.str s, fun _ _ => rfl⟩

theorem reads_bool (b : Bool) : bool.Reads n (.bool b) b := ⟨.bool b, fun _ _ => rfl⟩

theorem legible_nat {k : Nat} (h : k < UInt64.size) : (Json.nat k).Legible n :=
  .int (Int.natCast_nonneg k) (Int.ofNat_lt.2 h)

theorem natBelow_ofJson {bound k : Nat} (h : k < bound) (p : Place) :
    natBelow bound p (.ofJson (.nat k)) = .value k :=
  if_pos ⟨Int.natCast_nonneg k, Int.ofNat_lt.2 h⟩

theorem reads_uint32 (x : UInt32) : uint32.Reads n (.nat x.toNat) x where
  legible := legible_nat (Nat.lt_trans x.toNat_lt (by decide))
  reads p _ := by
    rw [uint32, natBelow_ofJson x.toNat_lt, Reading.map_value, UInt32.ofNat_toNat]

theorem reads_uint64 (x : UInt64) : uint64.Reads n (countJson x) x where
  legible := legible_nat x.toNat_lt
  reads p _ := by
    rw [uint64, countJson, natBelow_ofJson x.toNat_lt, Reading.map_value, UInt64.ofNat_toNat]

theorem reads_parsed {f : String → Option α} {s : String} {a : α} (h : f s = some a) :
    (parsed f).Reads n (.str s) a where
  legible := .str s
  reads p _ := by
    show Reading.ofOption .mistyped (f s) = _
    rw [h]
    rfl

theorem Reads.map {d : Decoder α} {j : Json} {a : α} (h : d.Reads n j a) (f : α → β) :
    Decoder.Reads (fun p j => f <$> d p j) n j (f a) where
  legible := h.legible
  reads p hp := by rw [h.reads p hp, Reading.map_value]

/-- One of several things is read by its name. -/
theorem reads_oneOf {names : List (String × α)} {s : String} {a : α}
    (h : names.lookup s = some a) : (oneOf names).Reads n (.str s) a where
  legible := .str s
  reads p _ := by
    show Reading.ofOption .mistyped (names.lookup s) = _
    rw [h]
    rfl

theorem reads_nameOrIndex {names : List (String × α)} {s : String} {a : α}
    (h : names.lookup s = some a) (p : Place) : nameOrIndex names p (.str s) = .value a := by
  show Reading.ofOption .mistyped (names.lookup s) = _
  rw [h]
  rfl

/-- A value that may be absent is read if it is not written as `null` itself. -/
theorem reads_optional {d : Decoder α} {f : α → Json} {o : Option α}
    (h : ∀ a, o = some a → d.Reads n (f a) a) (hnull : ∀ a, f a ≠ .null) :
    d.optional.Reads n (.ofOption f o) o := by
  cases o with
  | none => exact ⟨.null, fun _ _ => rfl⟩
  | some a =>
    have ha := h a rfl
    refine ⟨ha.legible, fun p hp => ?_⟩
    have hsource : Source.ofJson (f a) ≠ .null := by
      intro he
      exact hnull a (by rw [← Source.toJson_ofJson (f a), he, Source.toJson])
    have hsome : d.optional p (.ofJson (f a)) = some <$> d p (.ofJson (f a)) := by
      unfold optional
      split
      · next he => exact absurd he hsource
      · rfl
    rw [ofOption, hsome, ha.reads p hp, Reading.map_value]

/-! ## Lists, pairs and tables -/

theorem mapM_value {γ : Type} {f : γ → Reading β} {g : γ → β} {l : List γ}
    (h : ∀ x ∈ l, f x = .value (g x)) : l.mapM f = .value (l.map g) := by
  induction l with
  | nil => rfl
  | cons x rest ih =>
    rw [List.mapM_cons, h x List.mem_cons_self, ih fun y hy => h y (List.mem_cons_of_mem x hy)]
    rfl

theorem reads_list {d : Decoder α} {f : α → Json} {l : List α} (h : ∀ a ∈ l, d.Reads n (f a) a) :
    (list d).Reads (n + 1) (.list f l) l where
  legible := by
    refine .arr fun j hj => ?_
    obtain ⟨a, ha, rfl⟩ := List.mem_map.1 hj
    exact (h a ha).legible
  reads p hp := by
    obtain ⟨q, hq, henter⟩ := enter_of_fits hp
    have hitems : ((l.map f).map Source.ofJson).mapM (d q) = .value (l.map id) := by
      rw [List.map_map, List.mapM_map]
      exact mapM_value fun a ha => (h a ha).reads q hq
    rw [Json.list, Source.ofJson, list, henter, Source.ofJsonItems_eq, hitems, List.map_id]

theorem reads_pair {d : Decoder α} {e : Decoder β} {j k : Json} {a : α} {b : β}
    (hd : d.Reads n j a) (he : e.Reads n k b) : (pair d e).Reads (n + 1) (.arr [j, k]) (a, b) where
  legible := .arr (by simp [hd.legible, he.legible])
  reads p hp := by
    obtain ⟨q, hq, henter⟩ := enter_of_fits hp
    rw [Source.ofJson, pair, henter]
    show Prod.mk <$> d q (.ofJson j) <*> e q (.ofJson k) = _
    rw [hd.reads q hq, he.reads q hq]
    rfl

end Decoder

/-! ## Records -/

theorem Gathered.after_value (k : Nat) (a : α) : after k (.value a) = .value a := rfl

namespace Slots

variable {s : Slots} {fields : List (String × Json)} {j : Json}

/-- The members are those of a written record, each name once. -/
structure Has (s : Slots) (n : Nat) (fields : List (String × Json)) : Prop where
  fits : s.place.Fits n
  members : s.members = Source.ofJsonFields fields
  byName : s.positional = false
  distinct : (fields.map Prod.fst).Nodup

theorem member?_go {name : String} (hd : (fields.map Prod.fst).Nodup) (hm : (name, j) ∈ fields)
    (k : Nat) : ∃ i, member?.go name k (Source.ofJsonFields fields) = some (i, .ofJson j) := by
  induction fields generalizing k with
  | nil => cases hm
  | cons f rest ih =>
    obtain ⟨other, i⟩ := f
    rw [List.map_cons, List.nodup_cons] at hd
    rcases List.mem_cons.1 hm with he | hrest
    · injection he with hname hj
      subst hname hj
      exact ⟨k, if_pos rfl⟩
    · have hne : some other ≠ some name := by
        rintro ⟨⟩
        exact hd.1 (List.mem_map.2 ⟨_, hrest, rfl⟩)
      obtain ⟨i, hi⟩ := ih hd.2 hrest (k + 1)
      exact ⟨i, (if_neg hne).trans hi⟩

theorem Has.member? (h : s.Has n fields) {name : String} (hm : (name, j) ∈ fields) :
    ∃ i, s.member? name = some (i, .ofJson j) := by
  rw [Slots.member?, h.members]
  exact member?_go h.distinct hm 0

theorem member?_go_eq_none {name : String} (h : name ∉ fields.map Prod.fst) (k : Nat) :
    member?.go name k (Source.ofJsonFields fields) = none := by
  induction fields generalizing k with
  | nil => rfl
  | cons f rest ih =>
    obtain ⟨other, i⟩ := f
    rw [List.map_cons, List.mem_cons, not_or] at h
    have hne : some other ≠ some name := fun he => h.1 (Option.some.inj he).symm
    exact (if_neg hne).trans (ih h.2 (k + 1))

theorem Has.member?_eq_none (h : s.Has n fields) {name : String} (hm : name ∉ fields.map Prod.fst) :
    s.member? name = none := by
  rw [Slots.member?, h.members]
  exact member?_go_eq_none hm 0

variable {d : Decoder α} {a : α}

theorem Has.required (h : s.Has n fields) (name : String) (hm : (name, j) ∈ fields)
    (hd : d.Reads n j a) : s.required name d = .value a := by
  obtain ⟨i, hi⟩ := h.member? hm
  rw [Slots.required, hi]
  exact (congrArg _ (hd.reads _ h.fits)).trans (Gathered.after_value i a)

theorem Has.withDefault (h : s.Has n fields) (name : String) (hm : (name, j) ∈ fields)
    (hd : d.Reads n j a) (default : α) : s.withDefault name d default = .value a := by
  obtain ⟨i, hi⟩ := h.member? hm
  rw [Slots.withDefault, hi]
  exact (congrArg _ (hd.reads _ h.fits)).trans (Gathered.after_value i a)

theorem Has.maybe (h : s.Has n fields) (name : String) {o : Option α} (hm : (name, j) ∈ fields)
    (hd : d.optional.Reads n j o) : s.maybe name d = .value o :=
  h.withDefault name hm hd none

/-- A member that is left out when it is absent, and written otherwise. -/
theorem Has.maybe_present (h : s.Has n fields) (name : String) {f : α → Json} {o : Option α}
    (hpresent : ∀ a, o = some a → (name, f a) ∈ fields)
    (habsent : o = none → name ∉ fields.map Prod.fst) (hd : d.optional.Reads n (.ofOption f o) o) :
    s.maybe name d = .value o := by
  cases o with
  | none => rw [Slots.maybe, Slots.withDefault, h.member?_eq_none (habsent rfl)]
  | some a => exact h.maybe name (hpresent a rfl) hd

theorem Has.nullable (h : s.Has n fields) (name : String) {o : Option α} (hm : (name, j) ∈ fields)
    (hd : d.optional.Reads n j o) : s.nullable name d = .value o := by
  rw [Slots.nullable, h.byName, if_neg Bool.false_ne_true]
  exact h.maybe name hm hd

end Slots

namespace Decoder

variable {fields : List (String × Json)} {names : List String} {a : α}

/-- Distinct fields get through if each is known or passes the test. -/
theorem screen_fields {passes : Source → Bool} (hd : (fields.map Prod.fst).Nodup)
    (h : ∀ f ∈ fields, f.1 ∈ names ∨ passes (.ofJson f.2) = true) {seen : List String}
    (hseen : ∀ f ∈ fields, f.1 ∉ seen) (k : Nat) :
    screen names passes k seen (Source.ofJsonFields fields) = .value () := by
  induction fields generalizing k seen with
  | nil => rfl
  | cons f rest ih =>
    obtain ⟨name, j⟩ := f
    rw [List.map_cons, List.nodup_cons] at hd
    have hnew : name ∉ seen := hseen (name, j) List.mem_cons_self
    have hrest : ∀ {seen : List String}, (∀ f ∈ rest, f.1 ∉ seen) → ∀ k,
        screen names passes k seen (Source.ofJsonFields rest) = .value () :=
      ih hd.2 fun f hf => h f (List.mem_cons_of_mem _ hf)
    rw [Source.ofJsonFields, screen]
    split
    · next hknown =>
      rw [if_neg (by simpa using hnew)]
      refine hrest (fun f hf => ?_) (k + 1)
      have hother : f.1 ≠ name := fun he => hd.1 (List.mem_map.2 ⟨f, hf, he⟩)
      simp only [List.mem_cons, not_or]
      exact ⟨hother, hseen f (List.mem_cons_of_mem _ hf)⟩
    · next hunknown =>
      have hpasses : passes (.ofJson j) = true :=
        (h (name, j) List.mem_cons_self).resolve_left (by simpa using hunknown)
      rw [if_pos hpasses]
      exact hrest (fun f hf => hseen f (List.mem_cons_of_mem _ hf)) (k + 1)

/-- A record is read from its fields if it is read from its members by name. -/
theorem reads_record {body : Slots → Gathered α} (hnames : ∀ f ∈ fields, f.1 ∈ names)
    (hd : (fields.map Prod.fst).Nodup) (hlegible : ∀ f ∈ fields, f.2.Legible n)
    (hbody : ∀ s : Slots, s.Has n fields → body s = .value a) :
    (record names body).Reads (n + 1) (.obj fields) a where
  legible := .obj hlegible
  reads p hp := by
    obtain ⟨q, hq, henter⟩ := enter_of_fits hp
    rw [Source.ofJson, record, henter, screen_fields hd (fun f hf => .inl (hnames f hf)) (fun _ _ => List.not_mem_nil),
      hbody ⟨q, Source.ofJsonFields fields, false⟩ ⟨hq, rfl, rfl, hd⟩]
    rfl

/-- A record that keeps its other fields gets them as they were written. -/
theorem reads_recordWithRest {body : Slots → List (Option String × Source) → Gathered α}
    (hd : (fields.map Prod.fst).Nodup) (hlegible : ∀ f ∈ fields, f.2.Legible n)
    (hbody : ∀ s : Slots, s.Has n fields →
      body s (Source.ofJsonFields (fields.filter fun f => !names.contains f.1)) = .value a) :
    (recordWithRest names body).Reads (n + 1) (.obj fields) a where
  legible := .obj hlegible
  reads p hp := by
    obtain ⟨q, hq, henter⟩ := enter_of_fits hp
    have hothers : (Source.ofJsonFields fields).filter (fun f => !f.1.any names.contains) =
        Source.ofJsonFields (fields.filter fun f => !names.contains f.1) := by
      rw [Source.ofJsonFields_eq, Source.ofJsonFields_eq, List.filter_map]
      rfl
    rw [Source.ofJson, recordWithRest, henter]
    dsimp only
    rw [screen_fields hd _ (fun _ _ => List.not_mem_nil), hothers,
      hbody ⟨q, Source.ofJsonFields fields, false⟩ ⟨hq, rfl, rfl, hd⟩]
    · rfl
    · intro f hf
      right
      cases q with
      | text room => exact Source.keepable_ofJson (hlegible f hf) hq
      | memory | buffer => rfl

/-- The value under a tag is found apart from the other fields. -/
theorem tagged_cons {tag : String} {j : Json} (h : tag ∉ fields.map Prod.fst) :
    tagged tag (Source.ofJsonFields ((tag, j) :: fields)) =
      .value (.ofJson j, Source.ofJsonFields fields) := by
  have hne : ∀ f ∈ fields, (some f.1 == some tag) = false := by
    intro f hf
    have : f.1 ≠ tag := fun he => h (he ▸ List.mem_map_of_mem hf)
    simpa using this
  have hnone : (Source.ofJsonFields fields).filter (fun f => f.1 == some tag) = [] := by
    rw [Source.ofJsonFields_eq, List.filter_eq_nil_iff]
    intro f hf
    obtain ⟨g, hg, rfl⟩ := List.mem_map.1 hf
    simpa using hne g hg
  have hall : (Source.ofJsonFields fields).filter (fun f => f.1 != some tag) =
      Source.ofJsonFields fields := by
    rw [Source.ofJsonFields_eq, List.filter_eq_self]
    intro f hf
    obtain ⟨g, hg, rfl⟩ := List.mem_map.1 hf
    simpa using hne g hg
  simp [tagged, Source.ofJsonFields, hnone, hall]

end Decoder

end Json

end MailCampaign
