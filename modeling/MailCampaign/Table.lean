/-!
# Tables

A table holds at most one value per key and keeps its keys in the order of first insertion. All
that a table stores is seen through `find?`; each operation has one equation for it.
-/

namespace MailCampaign

/-- A finite map that keeps the order in which its keys were first inserted. -/
structure Table (κ : Type) (ν : Type) where
  /-- The entries in order of first insertion. -/
  entries : List (κ × ν)
  /-- No key occurs twice. -/
  distinct : (entries.map Prod.fst).Nodup

namespace Table

variable {κ ν : Type} [DecidableEq κ]

/-- The value stored first for a key in a list of entries. -/
def lookup (k : κ) : List (κ × ν) → Option ν
  | [] => none
  | (k', v) :: rest => if k' = k then some v else lookup k rest

/-- Replaces the value of a key where it stands, or adds the entry at the end. -/
def place (k : κ) (v : ν) : List (κ × ν) → List (κ × ν)
  | [] => [(k, v)]
  | (k', v') :: rest => if k' = k then (k, v) :: rest else (k', v') :: place k v rest

theorem map_fst_place (k : κ) (v : ν) (l : List (κ × ν)) :
    (place k v l).map Prod.fst =
      if k ∈ l.map Prod.fst then l.map Prod.fst else l.map Prod.fst ++ [k] := by
  induction l with
  | nil => simp [place]
  | cons p rest ih =>
    obtain ⟨k', v'⟩ := p
    by_cases h : k' = k
    · simp [place, h]
    · have h' : k ≠ k' := fun e => h e.symm
      simp only [place, h, if_false, List.map_cons, ih, List.mem_cons, h', false_or]
      split <;> simp

theorem nodup_place {k : κ} {v : ν} {l : List (κ × ν)} (h : (l.map Prod.fst).Nodup) :
    ((place k v l).map Prod.fst).Nodup := by
  rw [map_fst_place]
  split
  · exact h
  · next hk =>
    refine List.nodup_append.2 ⟨h, by simp, ?_⟩
    intro a ha b hb e
    simp at hb
    exact hk (hb ▸ e ▸ ha)

theorem lookup_place (k k' : κ) (v : ν) (l : List (κ × ν)) :
    lookup k' (place k v l) = if k' = k then some v else lookup k' l := by
  induction l with
  | nil =>
    by_cases h : k' = k
    · simp [place, lookup, h]
    · have : ¬ k = k' := fun e => h e.symm
      simp [place, lookup, h, this]
  | cons p rest ih =>
    obtain ⟨a, b⟩ := p
    by_cases h : a = k
    · by_cases h' : k' = k
      · simp [place, lookup, h, h']
      · have : ¬ k = k' := fun e => h' e.symm
        simp [place, lookup, h, h', this]
    · by_cases h' : a = k'
      · have : ¬ k' = k := fun e => h (h'.trans e)
        simp [place, lookup, h', this]
      · simp [place, lookup, h, h', ih]

/-- The table without entries. -/
def empty : Table κ ν := ⟨[], by simp⟩

instance : Inhabited (Table κ ν) := ⟨empty⟩
instance : EmptyCollection (Table κ ν) := ⟨empty⟩

/-- The value stored for a key. -/
def find? (t : Table κ ν) (k : κ) : Option ν := lookup k t.entries

/-- Whether a value is stored for a key. -/
def contains (t : Table κ ν) (k : κ) : Bool := (t.find? k).isSome

/-- Stores a value for a key, in place of the value stored before. -/
def insert (t : Table κ ν) (k : κ) (v : ν) : Table κ ν := ⟨place k v t.entries, nodup_place t.distinct⟩

/-- The entries that satisfy a test. -/
def keepIf (t : Table κ ν) (p : κ → ν → Bool) : Table κ ν :=
  ⟨t.entries.filter fun e => p e.1 e.2,
    List.Nodup.sublist (List.Sublist.map Prod.fst List.filter_sublist) t.distinct⟩

/-- Stores each entry of a list in turn, so that the last value of a key wins. -/
def insertAll (t : Table κ ν) (l : List (κ × ν)) : Table κ ν :=
  l.foldl (fun t e => t.insert e.1 e.2) t

/-- The table of a list of entries; the last value of a key wins. -/
def ofList (l : List (κ × ν)) : Table κ ν := empty.insertAll l

/-- The entries in order of first insertion. -/
def toList (t : Table κ ν) : List (κ × ν) := t.entries

def keys (t : Table κ ν) : List κ := t.entries.map Prod.fst

/-- The values in order of first insertion of their keys. -/
def values (t : Table κ ν) : List ν := t.entries.map Prod.snd

def size (t : Table κ ν) : Nat := t.entries.length

@[simp] theorem find?_empty (k : κ) : (empty : Table κ ν).find? k = none := rfl

omit [DecidableEq κ] in
@[simp] theorem size_empty : (empty : Table κ ν).size = 0 := rfl

theorem find?_insert (t : Table κ ν) (k k' : κ) (v : ν) :
    (t.insert k v).find? k' = if k' = k then some v else t.find? k' :=
  lookup_place k k' v t.entries

@[simp] theorem find?_insert_self (t : Table κ ν) (k : κ) (v : ν) :
    (t.insert k v).find? k = some v := by simp [find?_insert]

theorem find?_insert_of_ne (t : Table κ ν) {k k' : κ} (v : ν) (h : k' ≠ k) :
    (t.insert k v).find? k' = t.find? k' := by simp [find?_insert, h]

theorem keys_insert (t : Table κ ν) (k : κ) (v : ν) :
    (t.insert k v).keys = if k ∈ t.keys then t.keys else t.keys ++ [k] :=
  map_fst_place k v t.entries

/-- Every value is stored under its own key. -/
def Keyed (key : ν → κ) (t : Table κ ν) : Prop := ∀ k v, t.find? k = some v → key v = k

theorem keyed_empty (key : ν → κ) : (empty : Table κ ν).Keyed key := by
  intro k v h
  cases h

theorem Keyed.insert {key : ν → κ} {t : Table κ ν} (h : t.Keyed key) (v : ν) :
    (t.insert (key v) v).Keyed key := by
  intro k w hw
  rw [find?_insert] at hw
  split at hw
  · next hk => injection hw with hw; rw [← hw, hk]
  · exact h k w hw

theorem lookup_eq_some_iff {l : List (κ × ν)} (h : (l.map Prod.fst).Nodup) {k : κ} {v : ν} :
    lookup k l = some v ↔ (k, v) ∈ l := by
  induction l with
  | nil => simp [lookup]
  | cons p rest ih =>
    obtain ⟨a, b⟩ := p
    rw [List.map_cons, List.nodup_cons] at h
    by_cases e : a = k
    · subst e
      have : ∀ w, (a, w) ∉ rest := fun w hw => h.1 (List.mem_map.2 ⟨(a, w), hw, rfl⟩)
      simp [lookup, this, eq_comm]
    · have e' : ¬ k = a := fun x => e x.symm
      simp [lookup, e, e', ih h.2]

/-- The entries are the pairs of a key and the value found for it. -/
theorem mem_toList (t : Table κ ν) {k : κ} {v : ν} : (k, v) ∈ t.toList ↔ t.find? k = some v :=
  (lookup_eq_some_iff t.distinct).symm

theorem mem_keys (t : Table κ ν) {k : κ} : k ∈ t.keys ↔ ∃ v, t.find? k = some v := by
  simp only [keys, List.mem_map]
  constructor
  · rintro ⟨⟨a, v⟩, hm, rfl⟩
    exact ⟨v, t.mem_toList.1 hm⟩
  · rintro ⟨v, hv⟩
    exact ⟨(k, v), t.mem_toList.2 hv, rfl⟩

theorem find?_keepIf (t : Table κ ν) (p : κ → ν → Bool) (k : κ) :
    (t.keepIf p).find? k = (t.find? k).filter (p k) := by
  cases hf : t.find? k with
  | none =>
    cases hk : (t.keepIf p).find? k with
    | none => rfl
    | some v =>
      have := (t.keepIf p).mem_toList.2 hk
      have hm : (k, v) ∈ t.toList := (List.mem_filter.1 this).1
      rw [t.mem_toList.1 hm] at hf
      cases hf
  | some v =>
    by_cases hp : p k v
    · have : (k, v) ∈ (t.keepIf p).toList := List.mem_filter.2 ⟨t.mem_toList.2 hf, hp⟩
      rw [(t.keepIf p).mem_toList.1 this, Option.filter_some, if_pos hp]
    · rw [Option.filter_some, if_neg hp]
      cases hk : (t.keepIf p).find? k with
      | none => rfl
      | some w =>
        have hm := List.mem_filter.1 ((t.keepIf p).mem_toList.2 hk)
        have hw : t.find? k = some w := t.mem_toList.1 hm.1
        rw [hf] at hw
        injection hw with hw
        subst hw
        exact absurd hm.2 hp

end Table

end MailCampaign
