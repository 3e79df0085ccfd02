import MailCampaign.Proofs.World.Restore

/-!
# What backs a world

A snapshot, if there is one, and entries back a world when they rebuild it from an empty one, and what
they have besides was forgotten. Entries that are written twice do no harm, nor does a snapshot that
covers some of them already. A world that was restored is backed by what it was restored from, and its
lists are as they should be.
-/

namespace MailCampaign.World

variable {w v r : World} {forgot forgot' : Slot → Datum → Prop} {snap : Option Snapshot}
  {l l' older newer : List Entry}

/-- An empty world into which a snapshot was loaded, if there is one. -/
def base (n : Nat) : Option Snapshot → World
  | some s => ((empty n).restore s).1
  | none => empty n

/-- A world that is rebuilt from a snapshot, if there is one, and entries; what these have besides was
forgotten. -/
structure Backed (w : World) (forgot : Slot → Datum → Prop) (snap : Option Snapshot)
    (l : List Entry) : Prop where
  rebuilds : ∀ n, (base n snap).Rebuilds l w
  copies : ∀ n, (base n snap).Copies w
  versions : ∀ d, .flow d ∈ l → w.HasVersion d
  known : ∀ n s x, (written l s).or ((base n snap).at? s) = some x → w.at? s = some x ∨ forgot s x

theorem at?_base (n m : Nat) (s : Slot) : (base n snap).at? s = (base m snap).at? s := by
  cases snap <;> cases s <;> rfl

theorem backed_empty (m : Nat) : (empty m).Backed forgot none [] where
  rebuilds := fun n => rebuilds_empty n m
  copies := fun n => copies_empty n _
  versions := fun _ h => absurd h List.not_mem_nil
  known := fun n s x hx => by
    rw [written_nil, Option.none_or, base, at?_empty] at hx
    cases hx

theorem at?_trace (w : World) (trace : List Effect) (s : Slot) :
    ({ w with trace } : World).at? s = w.at? s := by cases s <;> rfl

/-- What was emitted and written down has nothing to do with what backs a world. -/
theorem Backed.retrace (h : w.Backed forgot snap l) (trace : List Effect) :
    ({ w with trace } : World).Backed forgot snap l where
  rebuilds := fun n =>
    ⟨(h.rebuilds n).grounds, fun s hs => ((h.rebuilds n).lasting s hs).trans (at?_trace w trace s).symm,
      fun s x hx => (h.rebuilds n).fleeting s x ((at?_trace w trace s).symm.trans hx)⟩
  copies := fun n => { h.copies n with versions := (h.copies n).versions }
  versions := h.versions
  known := fun n s x hx => (h.known n s x hx).imp_left (at?_trace w trace s).trans

theorem Tidy.retrace (h : w.Tidy) (trace : List Effect) : ({ w with trace } : World).Tidy :=
  ⟨h.listed, h.numbered, h.indexed, h.leads, h.versioned⟩

theorem Backed.mono (h : w.Backed forgot snap l) (hforgot : ∀ s x, forgot s x → forgot' s x) :
    w.Backed forgot' snap l :=
  { h with known := fun n s x hx => (h.known n s x hx).imp_right (hforgot s x) }

/-! ## Going on -/

theorem Postings.version_kept {prunes : Prop} {id : Uuid} {g : Graph} (h : w.Postings prunes v)
    (hg : w.flows.find? id = some g) : v.flows.find? id = some g :=
  h.preserves hg fun _ _ _ h => h.version_kept

/-- Postings add to the entries what they write down, if what they lose is forgotten. -/
theorem Backed.postings {prunes : Prop} (h : w.Backed forgot snap l) (hw : w.Tidy)
    (htrace : w.trace = []) (hv : w.Postings prunes v) (hforgot : ∀ s x, forgot s x → forgot' s x)
    (hlost : ∀ s x, (written (journaled v.trace) s).or (w.at? s) = some x →
      v.at? s = some x ∨ forgot' s x) :
    v.Backed forgot' snap (l ++ journaled v.trace) where
  rebuilds := by
    intro n
    obtain ⟨more, hmore, hr⟩ := hv.rebuilds (h.rebuilds n) hw.versioned
    rw [htrace, show journaled [] = [] from rfl, List.nil_append] at hmore
    exact hmore ▸ hr
  copies := fun n =>
    { h.copies n with versions := fun id g hg => hv.version_kept ((h.copies n).versions id g hg) }
  versions := by
    intro d hd
    rcases List.mem_append.1 hd with hold | hnew
    · exact hv.hasVersion (h.versions d hold)
    · refine hv.hasVersion_journaled (fun d hd => ?_) d hnew
      rw [htrace] at hd
      exact absurd hd List.not_mem_nil
  known := by
    intro n s x hx
    rw [written_append, Option.or_assoc] at hx
    rcases Option.or_eq_some_iff.1 hx with hnew | ⟨hnone, hx⟩
    · exact hlost s x (by rw [hnew, Option.some_or])
    · rcases h.known n s x hx with hold | hgone
      · exact hlost s x (by rw [hnone, Option.none_or, hold])
      · exact .inr (hforgot s x hgone)

/-! ## Files of a journal -/

/-- Entries may be there twice in a row. -/
theorem Backed.again (h : w.Backed forgot snap (older ++ newer)) :
    w.Backed forgot snap (older ++ newer ++ newer) := by
  have hwritten (s : Slot) : written (older ++ newer ++ newer) s = written (older ++ newer) s := by
    rw [written_append, written_append, ← Option.or_assoc, Option.or_self]
  refine ⟨fun n => ?_, h.copies, fun d hd => h.versions d (by simpa using hd), fun n s x hx => ?_⟩
  · have hr := h.rebuilds n
    refine ⟨hr.grounds.append fun c hc => ?_, fun s hs => ?_, fun s x hx => ?_⟩
    · rw [hr.lasting (.flow c.flowId) id]
      exact hr.version_known (List.mem_append_right older hc)
    · rw [hwritten]
      exact hr.lasting s hs
    · rw [hwritten]
      exact hr.fleeting s x hx
  · rw [hwritten] at hx
    exact h.known n s x hx

/-- A snapshot of the world takes the place of the old one, and of entries at the start. -/
theorem Backed.saved (h : w.Backed forgot snap l) (hw : w.Tidy) {s : Snapshot} (hs : s.Lists w)
    (hl : l' <:+ l) : w.Backed forgot (some s) l' where
  rebuilds := fun n => (h.rebuilds 0).rebase (at?_restore hs hw n) hl.subset
    fun _ _ hx => written_of_suffix hl hx
  copies := fun n => copies_restore (fun _ hd => hs.mem_flows.1 hd) n
  versions := fun d hd => h.versions d (hl.subset hd)
  known := by
    intro n slot x hx
    rcases Option.or_eq_some_iff.1 hx with hnew | ⟨-, hold⟩
    · exact h.known n slot x (by rw [written_of_suffix hl hnew, Option.some_or])
    · exact .inl ((at?_restore hs hw n slot).symm.trans hold)

/-! ## Restored worlds -/

theorem Backed.restores (h : w.Backed forgot snap l) (hw : w.Tidy) (n : Nat) :
    ((base n snap).replayAll l).Restores w :=
  (h.rebuilds n).restores (h.copies n) hw h.versions

theorem Restores.hasVersion (h : r.Restores w) {d : Definition} (hd : w.HasVersion d) :
    r.HasVersion d := by
  obtain ⟨g, hdef, hg⟩ := hd
  exact ⟨g, hdef, (h.versions g.id).trans hg⟩

/-- A restored world is tidy if the order of its lists is. -/
theorem Restores.tidy (h : r.Restores w) (hw : w.Tidy) (hlisted : r.flows.Listed)
    (hindexed : r.cursors.Indexed) : r.Tidy where
  listed := hlisted
  numbered := by
    intro campaign hlength
    obtain ⟨hperm, hsame⟩ := h.history campaign
    have hshort := hperm.length_eq ▸ hlength
    have hnumber : r.flows.numberOf = w.flows.numberOf :=
      funext fun id => FlowStore.numberOf_congr (h.versions id)
    rw [(hsame hshort).1, hnumber]
    exact hw.numbered campaign hshort
  indexed := hindexed
  leads := fun id l hl => hw.leads id l ((h.leads id).symm.trans hl)
  versioned := by
    intro key c hc
    have hversion := hw.versioned key c ((h.cursors key).symm.trans hc)
    rw [at?, h.versions]
    exact hversion

theorem Backed.at?_restored (h : w.Backed forgot snap l) (n m : Nat) (s : Slot) :
    ((base n snap).replayAll l).at? s = (written l s).or ((base m snap).at? s) := by
  rw [at?_replayAll (h.rebuilds n).grounds, at?_base n m]

/-- What a restored world has besides was forgotten. -/
theorem Backed.besides (h : w.Backed forgot snap l) (n : Nat) {s : Slot} {x : Datum}
    (hx : ((base n snap).replayAll l).at? s = some x) :
    w.at? s = some x ∨ w.at? s = none ∧ forgot s x := by
  rw [h.at?_restored n n] at hx
  cases hw : w.at? s with
  | some y =>
    have hy := (h.rebuilds n).fleeting s y hw
    exact .inl (hy.symm.trans hx)
  | none => exact .inr ⟨rfl, (h.known n s x hx).resolve_left fun he => by rw [hw] at he; cases he⟩

/-- What a world is restored from backs the restored world. -/
theorem Backed.restored (h : w.Backed forgot snap l) (hw : w.Tidy) (n : Nat) :
    ((base n snap).replayAll l).Tidy ∧ ((base n snap).replayAll l).Backed forgot' snap l := by
  have hrestores := h.restores hw n
  have hcopies := (h.copies n).replayAll h.versions
  refine ⟨hrestores.tidy hw hcopies.listed hcopies.indexed, ⟨fun m => ?_, fun m => ?_, fun d hd => ?_,
    fun m s x hx => .inl ((h.at?_restored n m s).trans hx)⟩⟩
  · exact ⟨(h.rebuilds m).grounds, fun s _ => (h.at?_restored n m s).symm,
      fun s x hx => (h.at?_restored n m s).symm.trans hx⟩
  · exact { h.copies m with
      versions := fun id g hg => (hrestores.versions id).trans ((h.copies m).versions id g hg) }
  · exact hrestores.hasVersion (h.versions d hd)

end MailCampaign.World
