import MailCampaign.Engine.Host

/-!
# The files beside a snapshot

A path with another extension has the same folder and the same stem. So the live file of a journal and
the file set aside have names of their own, unless the extension of the snapshot is that of the live
file.
-/

namespace MailCampaign.Path

variable {path folder name before ext : List Char}

/-! ## Folders and names -/

/-- A folder before a file name: nothing, or it ends with a slash. -/
def Leads (folder : List Char) : Prop := ∀ c ∈ folder.getLast?, c = '/'

/-- A text that ends neither with a slash nor with a dot. -/
def Closed (name : List Char) : Prop := ∃ c ∈ name.getLast?, c ≠ '/' ∧ c ≠ '.'

theorem Closed.append (h : Closed ext) (before : List Char) : Closed (before ++ ext) := by
  obtain ⟨c, hc, hends⟩ := h
  refine ⟨c, ?_, hends⟩
  rw [Option.mem_def] at hc ⊢
  rw [List.getLast?_append, hc, Option.some_or]

theorem Leads.takeWhile (h : Leads folder) : folder.reverse.takeWhile (· != '/') = [] := by
  cases hr : folder.reverse with
  | nil => rfl
  | cons c rest =>
    have hc : c = '/' := h c (by rw [List.getLast?_eq_head?_reverse, hr]; rfl)
    simp [hc]

theorem split?_eq_some (h : split? path = some (folder, name)) :
    Leads folder ∧ '/' ∉ name ∧ name ≠ [] := by
  unfold split? at h
  dsimp only at h
  split at h
  · cases h
  · next hname =>
    obtain ⟨rfl, rfl⟩ := Prod.mk.inj (Option.some.inj h)
    refine ⟨?_, ?_, (not_or.1 hname).1⟩
    · intro c hc
      rw [List.getLast?_reverse] at hc
      have := List.head?_dropWhile_not (· != '/') (skipTail path.reverse)
      rw [hc] at this
      simpa using this
    · intro hm
      have := List.all_eq_true.1 List.all_takeWhile _ (List.mem_reverse.1 hm)
      simp at this

theorem takeWhile_append (hf : Leads folder) (hn : '/' ∉ name) :
    (folder ++ name).reverse.takeWhile (· != '/') = name.reverse := by
  have hall : ∀ c ∈ name.reverse, (c != '/') = true := by
    intro c hc
    have : c ≠ '/' := fun he => hn (he ▸ List.mem_reverse.1 hc)
    simpa using this
  rw [List.reverse_append, List.takeWhile_append_of_pos hall, hf.takeWhile, List.append_nil]

theorem dropWhile_append (hf : Leads folder) (hn : '/' ∉ name) :
    (folder ++ name).reverse.dropWhile (· != '/') = folder.reverse := by
  have happend := List.takeWhile_append_dropWhile (p := (· != '/')) (l := (folder ++ name).reverse)
  rw [takeWhile_append hf hn, List.reverse_append] at happend
  rw [List.reverse_append]
  exact List.append_cancel_left happend

theorem skipTail_closed (h : Closed name) :
    skipTail (folder ++ name).reverse = (folder ++ name).reverse := by
  obtain ⟨c, hc, hslash, hdot⟩ := h
  obtain ⟨before, rfl⟩ := List.getLast?_eq_some_iff.1 hc
  rw [← List.append_assoc, List.reverse_append, List.reverse_singleton, List.singleton_append]
  unfold skipTail
  split
  · next he => exact absurd (List.cons.inj he).1 hslash
  · next he => exact absurd (List.cons.inj he).1 hdot
  · rfl

/-- A folder and a name are taken apart again. -/
theorem split?_append (hf : Leads folder) (hn : '/' ∉ name) (h : Closed name) :
    split? (folder ++ name) = some (folder, name) := by
  have hsome : ¬(name = [] ∨ name = ['.'] ∨ name = ['.', '.']) := by
    obtain ⟨c, hc, -, hdot⟩ := h
    rintro (rfl | rfl | rfl)
    · cases hc
    · exact hdot (Option.some.inj hc).symm
    · exact hdot (Option.some.inj hc).symm
  rw [split?, skipTail_closed h, takeWhile_append hf hn, dropWhile_append hf hn,
    List.reverse_reverse, List.reverse_reverse, if_neg hsome]

/-- A path that ends with two dots has no file name. -/
theorem split?_dots (hf : Leads folder) : split? (folder ++ ['.', '.']) = none := by
  have hskip : skipTail (folder ++ ['.', '.']).reverse = (folder ++ ['.', '.']).reverse := by
    rw [List.reverse_append]
    rfl
  rw [split?, hskip, takeWhile_append hf (by decide)]
  exact if_pos (.inr (.inr rfl))

/-! ## Stems and extensions -/

/-- The stem of a name stands before its last dot. -/
theorem stem_append (hb : before ≠ []) (he : '.' ∉ ext) : stem (before ++ '.' :: ext) = before := by
  have hall : ∀ c ∈ ext.reverse, (c != '.') = true := by
    intro c hc
    have : c ≠ '.' := fun h => he (h ▸ List.mem_reverse.1 hc)
    simpa using this
  have hdrop : (before ++ '.' :: ext).reverse.dropWhile (· != '.') = '.' :: before.reverse := by
    rw [List.reverse_append, List.reverse_cons, List.append_assoc, List.dropWhile_append_of_pos hall]
    rfl
  rw [stem, hdrop, List.drop_one, List.tail_cons]
  split
  · next h => exact absurd (List.reverse_eq_nil_iff.1 h) hb
  · rw [List.reverse_reverse]

theorem stem_ne_nil (h : name ≠ []) : stem name ≠ [] := by
  unfold stem
  split
  · exact h
  · next hb => exact fun he => hb (List.reverse_eq_nil_iff.1 he)

theorem mem_of_mem_stem {c : Char} (h : c ∈ stem name) : c ∈ name := by
  unfold stem at h
  split at h
  · exact h
  · exact List.mem_reverse.1 ((List.dropWhile_sublist _).subset
      (List.mem_of_mem_drop (List.mem_reverse.1 h)))

/-- What follows the stem of the file name of a path and a dot. -/
def extension? (path : String) : Option (List Char) :=
  (split? path.toList).map fun (_, name) => name.drop ((stem name).length + 1)

/-! ## Another extension -/

section

variable {snapshot extension : String}

theorem toList_withExtension (h : split? snapshot.toList = some (folder, name))
    (hs : stem name ≠ ['.']) : (withExtension snapshot extension).toList =
      folder ++ (stem name ++ '.' :: extension.toList) := by
  rw [withExtension, h]
  dsimp only
  rw [if_neg fun hdot => hs hdot.1, String.toList_ofList, List.append_assoc]

theorem split?_withExtension (h : split? snapshot.toList = some (folder, name))
    (hs : stem name ≠ ['.']) (hslash : '/' ∉ extension.toList) (hclosed : Closed extension.toList) :
    split? (withExtension snapshot extension).toList =
      some (folder, stem name ++ '.' :: extension.toList) := by
  obtain ⟨hf, hn, -⟩ := split?_eq_some h
  rw [toList_withExtension h hs]
  refine split?_append hf ?_ ?_
  · simpa [hslash] using fun hm => hn (mem_of_mem_stem hm)
  · simpa using hclosed.append (stem name ++ ['.'])

theorem extension?_withExtension (h : split? snapshot.toList = some (folder, name))
    (hs : stem name ≠ ['.']) (hslash : '/' ∉ extension.toList) (hclosed : Closed extension.toList)
    (hdot : '.' ∉ extension.toList) :
    extension? (withExtension snapshot extension) = some extension.toList := by
  have hne := stem_ne_nil (split?_eq_some h).2.2
  rw [extension?, split?_withExtension h hs hslash hclosed, Option.map_some]
  dsimp only
  rw [stem_append hne hdot, List.drop_append]
  simp

end

end MailCampaign.Path

namespace MailCampaign.Journal

open MailCampaign.Path

variable {path : String}

/-- A snapshot beside which there is a journal: the file set aside has a name, and the extension of the
snapshot is neither that of the live file nor that of the file it is written to first. -/
structure Suits (path : String) : Prop where
  named : (split? (asidePath path).toList).isSome = true
  extension : extension? path ≠ some "journal".toList ∧ extension? path ≠ some "tmp".toList

/-- The snapshot, the file it is written to first and the two files of the journal. -/
def filesBeside (path : String) : List String :=
  [path, Host.Task.temporaryPath path, livePath path, asidePath path]

theorem closed_journal : '/' ∉ "journal".toList ∧ Closed "journal".toList :=
  ⟨by decide, 'l', rfl, by decide, by decide⟩

theorem livePath_of_unnamed (h : split? path.toList = none) : livePath path = path := by
  rw [livePath, withExtension, h]

/-- Behind a stem of a single dot, the journal's files do not both get a name. -/
theorem paths_of_dotted {folder name : List Char} (hsplit : split? path.toList = some (folder, name))
    (hdot : stem name = ['.']) :
    ((livePath path).toList = folder ++ ['.', '.'] ∧ asidePath path = livePath path) ∨
      (livePath path).toList = folder ++ ('.' :: '.' :: "journal".toList) ∧
        (asidePath path).toList = folder ++ ['.', '.'] := by
  have hf := (split?_eq_some hsplit).1
  by_cases hwhole : path.toList = folder ++ name
  · have hlive : (livePath path).toList = folder ++ ['.', '.'] := by
      rw [livePath, withExtension, hsplit]
      dsimp only
      rw [if_pos ⟨hdot, hwhole⟩, hdot, String.toList_ofList, List.append_assoc]
      rfl
    exact .inl ⟨hlive, by rw [asidePath, withExtension, hlive, split?_dots hf]⟩
  · have hlive : (livePath path).toList = folder ++ ('.' :: '.' :: "journal".toList) := by
      rw [livePath, withExtension, hsplit]
      dsimp only
      rw [if_neg fun hw => hwhole hw.2, hdot, String.toList_ofList, List.append_assoc]
      rfl
    have hsplit' : split? (livePath path).toList = some (folder, '.' :: '.' :: "journal".toList) := by
      rw [hlive]
      exact split?_append hf (by decide) (closed_journal.2.append ['.', '.'])
    refine .inr ⟨hlive, ?_⟩
    rw [asidePath, withExtension, hsplit']
    dsimp only
    rw [if_pos ⟨by decide, hlive⟩, String.toList_ofList, List.append_assoc]
    rfl

/-- The path has a file name whose stem is more than a dot. -/
theorem Suits.exists_stem (h : Suits path) :
    ∃ folder name, split? path.toList = some (folder, name) ∧ stem name ≠ ['.'] := by
  have hnamed := h.named
  cases hsplit : split? path.toList with
  | none =>
    have hlive := livePath_of_unnamed hsplit
    rw [asidePath, hlive, withExtension, hsplit] at hnamed
    rw [hsplit] at hnamed
    cases hnamed
  | some parts =>
    obtain ⟨folder, name⟩ := parts
    refine ⟨folder, name, rfl, fun hdot => ?_⟩
    have hdots : split? (folder ++ ['.', '.']) = none := split?_dots (split?_eq_some hsplit).1
    rcases paths_of_dotted hsplit hdot with ⟨hlive, haside⟩ | ⟨-, haside⟩
    · rw [haside, hlive, hdots] at hnamed
      cases hnamed
    · rw [haside, hdots] at hnamed
      cases hnamed

section

variable {folder name : List Char} (hsplit : split? path.toList = some (folder, name))
  (hdot : stem name ≠ ['.'])

include hsplit hdot

theorem toList_livePath : (livePath path).toList = folder ++ (stem name ++ '.' :: "journal".toList) :=
  toList_withExtension hsplit hdot

theorem toList_temporaryPath :
    (Host.Task.temporaryPath path).toList = folder ++ (stem name ++ '.' :: "tmp".toList) :=
  toList_withExtension hsplit hdot

theorem toList_asidePath :
    (asidePath path).toList = folder ++ (stem name ++ '.' :: "journal.prev".toList) := by
  have hlive : split? (livePath path).toList = some (folder, stem name ++ '.' :: "journal".toList) :=
    split?_withExtension hsplit hdot closed_journal.1 closed_journal.2
  have hstem : stem (stem name ++ '.' :: "journal".toList) = stem name :=
    stem_append (stem_ne_nil (split?_eq_some hsplit).2.2) (by decide)
  rw [asidePath, toList_withExtension hlive (by rwa [hstem]), hstem]

theorem livePath_ne_of_stem : livePath path ≠ asidePath path := by
  intro he
  have hlists := (toList_livePath hsplit hdot).symm.trans
    ((congrArg String.toList he).trans (toList_asidePath hsplit hdot))
  have hends := List.append_cancel_left (List.append_cancel_left hlists)
  exact absurd (List.cons.inj hends).2 (by decide)

/-- The file set aside has a longer stem than the snapshot. -/
theorem ne_asidePath : path ≠ asidePath path := by
  intro he
  have hsplit' : split? (asidePath path).toList =
      some (folder, stem name ++ '.' :: "journal.prev".toList) := by
    rw [toList_asidePath hsplit hdot]
    refine split?_append (split?_eq_some hsplit).1 ?_ ?_
    · simpa using fun hm => (split?_eq_some hsplit).2.1 (mem_of_mem_stem hm)
    · exact Closed.append ⟨'v', rfl, by decide, by decide⟩ _
  have hname : name = (stem name ++ '.' :: "journal".toList) ++ '.' :: "prev".toList := by
    rw [← he, hsplit] at hsplit'
    rw [List.append_assoc]
    exact (Prod.mk.inj (Option.some.inj hsplit')).2
  have hstem : stem ((stem name ++ '.' :: "journal".toList) ++ '.' :: "prev".toList) =
      stem name ++ '.' :: "journal".toList := stem_append (by simp) (by decide)
  rw [← hname] at hstem
  have hlength := congrArg List.length hstem
  simp at hlength

end

/-- Where the live file has a name, the file set aside has another. -/
theorem livePath_ne_asidePath (h : (split? (livePath path).toList).isSome = true) :
    livePath path ≠ asidePath path := by
  cases hsplit : split? path.toList with
  | none =>
    rw [livePath_of_unnamed hsplit, hsplit] at h
    cases h
  | some parts =>
    obtain ⟨folder, name⟩ := parts
    by_cases hdot : stem name = ['.']
    · rcases paths_of_dotted hsplit hdot with ⟨hlive, -⟩ | ⟨hlive, haside⟩
      · rw [hlive, split?_dots (split?_eq_some hsplit).1] at h
        cases h
      · intro he
        have hlists := hlive.symm.trans ((congrArg String.toList he).trans haside)
        exact absurd (List.append_cancel_left hlists) (by decide)
    · exact livePath_ne_of_stem hsplit hdot

/-- The four files have different names. -/
theorem Suits.distinct (h : Suits path) :
    (path ≠ Host.Task.temporaryPath path ∧ path ≠ livePath path ∧ path ≠ asidePath path) ∧
      (Host.Task.temporaryPath path ≠ livePath path ∧ Host.Task.temporaryPath path ≠ asidePath path) ∧
        livePath path ≠ asidePath path := by
  obtain ⟨folder, name, hsplit, hdot⟩ := h.exists_stem
  have hlive := toList_livePath hsplit hdot
  have haside := toList_asidePath hsplit hdot
  have htmp := toList_temporaryPath hsplit hdot
  have hpathLive : path ≠ livePath path := by
    intro he
    have hext : extension? (livePath path) = some "journal".toList :=
      extension?_withExtension hsplit hdot closed_journal.1 closed_journal.2 (by decide)
    exact h.extension.1 (he ▸ hext)
  have hpathTmp : path ≠ Host.Task.temporaryPath path := by
    intro he
    have hext : extension? (Host.Task.temporaryPath path) = some "tmp".toList :=
      extension?_withExtension hsplit hdot (by decide) ⟨'p', rfl, by decide, by decide⟩ (by decide)
    exact h.extension.2 (he ▸ hext)
  -- The other three differ in what stands behind the stem.
  have hends {a b : List Char} (he : folder ++ (stem name ++ '.' :: a) =
      folder ++ (stem name ++ '.' :: b)) : a = b :=
    (List.cons.inj (List.append_cancel_left (List.append_cancel_left he))).2
  have hliveTmp : Host.Task.temporaryPath path ≠ livePath path := by
    intro he
    exact absurd (hends (htmp.symm.trans ((congrArg String.toList he).trans hlive))) (by decide)
  have hasideTmp : Host.Task.temporaryPath path ≠ asidePath path := by
    intro he
    exact absurd (hends (htmp.symm.trans ((congrArg String.toList he).trans haside))) (by decide)
  exact ⟨⟨hpathTmp, hpathLive, ne_asidePath hsplit hdot⟩, ⟨hliveTmp, hasideTmp⟩,
    livePath_ne_of_stem hsplit hdot⟩

end MailCampaign.Journal
