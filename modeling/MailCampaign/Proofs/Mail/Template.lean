import MailCampaign.Mail.Template
import Mathlib.Data.List.Infix
import Mathlib.Data.List.TakeWhile

/-!
# Merge fields are filled in once, from the left

A text is cut at its placeholders. The cut is described without the scan that finds it: a `Layout` says
which characters stand before, between and after braces, that each pair of braces is the first that can
stand there, and what is left of a name without the blanks around it.

1. The scan finds the first pair of braces and nothing else (`splitAtPair_append`,
   `splitAtPair_eq_some`), so every text has a layout (`Layout.exists_chars`) and no text has two
   (`Layout.chars_inj`).
2. What is put together from a layout is the values of its names between its other characters, as they
   stand (`fill_chars`). Nothing in a value is a placeholder again, and no merge field counts that the
   layout does not name.
-/

namespace MailCampaign

namespace Template

/-! ## The first pair -/

/-- A pair of this character that follows is the first one: none begins among these characters. -/
def FirstPair (c : Char) (before : List Char) : Prop := ¬[c, c] <:+: before ++ [c]

variable {c : Char} {cs before after : List Char}

theorem infix_pair_append (before after : List Char) : [c, c] <:+: before ++ c :: c :: after :=
  ⟨before, after, by rw [List.append_assoc]; rfl⟩

theorem infix_pair_cons_cons {a b : Char} :
    [c, c] <:+: a :: b :: cs ↔ (a = c ∧ b = c) ∨ [c, c] <:+: b :: cs := by
  rw [List.infix_cons_iff, List.cons_prefix_cons, List.cons_prefix_cons]
  simp only [List.nil_prefix, and_true, eq_comm]

theorem not_infix_pair_singleton (a : Char) : ¬[c, c] <:+: [a] := by
  intro h
  simpa using h.length_le

@[simp] theorem firstPair_nil : FirstPair c [] := not_infix_pair_singleton c

@[simp] theorem firstPair_cons_cons {a b : Char} :
    FirstPair c (a :: b :: cs) ↔ ¬(a = c ∧ b = c) ∧ FirstPair c (b :: cs) := by
  simp only [FirstPair, List.cons_append, infix_pair_cons_cons, not_or]

@[simp] theorem firstPair_singleton {a : Char} : FirstPair c [a] ↔ a ≠ c := by
  simp [FirstPair, infix_pair_cons_cons, not_infix_pair_singleton]

/-- The scan stops at the first pair. -/
theorem splitAtPair_append (h : FirstPair c before) (after : List Char) :
    splitAtPair c (before ++ c :: c :: after) = some (before, after) := by
  induction before with
  | nil => simp [splitAtPair]
  | cons a before ih =>
    cases before with
    | nil =>
      have ha : a ≠ c := firstPair_singleton.1 h
      simp [splitAtPair, ha]
    | cons b before =>
      obtain ⟨hab, hrest⟩ := firstPair_cons_cons.1 h
      have hsplit := ih hrest
      rw [List.cons_append] at hsplit
      rw [List.cons_append, List.cons_append, splitAtPair, if_neg hab, hsplit]
      rfl

theorem splitAtPair_eq_some (h : splitAtPair c cs = some (before, after)) :
    cs = before ++ c :: c :: after ∧ FirstPair c before := by
  fun_induction splitAtPair c cs generalizing before with
  | case1 a b rest hc =>
    cases h
    exact ⟨by rw [hc.1, hc.2, List.nil_append], firstPair_nil⟩
  | case2 a b rest hc ih =>
    obtain ⟨⟨front, back⟩, hsplit, he⟩ := Option.map_eq_some_iff.1 h
    obtain ⟨rfl, rfl⟩ := Prod.mk.inj he
    obtain ⟨hrest, hfirst⟩ := ih hsplit
    refine ⟨by rw [hrest, List.cons_append], ?_⟩
    cases front with
    | nil =>
      obtain ⟨rfl, -⟩ := List.cons.inj hrest
      exact firstPair_singleton.2 fun ha => hc ⟨ha, rfl⟩
    | cons d front =>
      obtain ⟨rfl, -⟩ := List.cons.inj hrest
      exact firstPair_cons_cons.2 ⟨hc, hfirst⟩
  | case3 => cases h

theorem splitAtPair_eq_none : splitAtPair c cs = none ↔ ¬[c, c] <:+: cs := by
  fun_induction splitAtPair c cs with
  | case1 a b rest hc => simp [infix_pair_cons_cons, hc]
  | case2 a b rest hc ih => rw [Option.map_eq_none_iff, ih, infix_pair_cons_cons, or_iff_right hc]
  | case3 cs h =>
    refine iff_of_true rfl fun hpair => ?_
    obtain ⟨front, back, rfl⟩ := hpair
    cases front with
    | nil => exact h c c back rfl
    | cons a front =>
      cases front with
      | nil => exact h a c (c :: back) rfl
      | cons b front => exact h a b (front ++ [c, c] ++ back) rfl

/-! ## Names without the blanks around them -/

/-- What is left of the characters without the blanks at either end. -/
structure Trims (inside name : List Char) : Prop where
  around : ∃ front back, inside = front ++ (name ++ back) ∧ (∀ c ∈ front, isBlank c = true) ∧
    ∀ c ∈ back, isBlank c = true
  head : ∀ c ∈ name.head?, isBlank c = false
  last : ∀ c ∈ name.getLast?, isBlank c = false

theorem skipBlanks_append {blanks : List Char} (h : ∀ c ∈ blanks, isBlank c = true)
    (cs : List Char) : skipBlanks (blanks ++ cs) = skipBlanks cs :=
  List.dropWhile_append_of_pos h

theorem exists_skipBlanks (cs : List Char) :
    ∃ blanks, cs = blanks ++ skipBlanks cs ∧ ∀ c ∈ blanks, isBlank c = true :=
  ⟨cs.takeWhile isBlank, List.takeWhile_append_dropWhile.symm,
    fun _ hc => List.mem_takeWhile_imp hc⟩

theorem trims_trimChars (cs : List Char) : Trims cs (trimChars cs) := by
  obtain ⟨front, hfront, hblank⟩ := exists_skipBlanks cs
  obtain ⟨back, hback, hblank'⟩ := exists_skipBlanks (skipBlanks cs).reverse
  have hrest : skipBlanks cs = trimChars cs ++ back.reverse := by
    rw [← List.reverse_inj, List.reverse_append, List.reverse_reverse, trimChars,
      List.reverse_reverse]
    exact hback
  refine ⟨⟨front, back.reverse, hrest ▸ hfront, hblank, fun c hc => ?_⟩, fun c hc => ?_,
    fun c hc => ?_⟩
  · exact hblank' c (List.mem_reverse.1 hc)
  · have hhead : (skipBlanks cs).head? = some c := by
      rw [hrest, List.head?_append, Option.mem_def.1 hc, Option.some_or]
    exact head_skipBlanks hhead
  · rw [trimChars, List.getLast?_reverse] at hc
    exact head_skipBlanks hc

theorem Trims.trimChars_eq {inside name : List Char} (h : Trims inside name) :
    trimChars inside = name := by
  obtain ⟨⟨front, back, rfl, hfront, hback⟩, hhead, hlast⟩ := h
  rw [trimChars, skipBlanks_append hfront]
  cases name with
  | nil =>
    have hall : skipBlanks back = [] := by
      simpa using skipBlanks_append hback []
    rw [List.nil_append, hall]
    rfl
  | cons a name =>
    have hfirst : skipBlanks (a :: name ++ back) = a :: name ++ back :=
      skipBlanks_eq_self (by simpa using hhead)
    have hblank : ∀ c ∈ back.reverse, isBlank c = true := fun c hc => hback c (List.mem_reverse.1 hc)
    rw [hfirst, List.reverse_append, skipBlanks_append hblank,
      skipBlanks_eq_self (by simpa only [List.head?_reverse] using hlast), List.reverse_reverse]

/-! ## One round of the scan -/

section Scan

variable (fields : Table String String)

theorem fill_of_unopened (hopen : splitAtPair '\x7b' cs = none) : fill fields cs = cs := by
  rw [fill]
  split
  · rfl
  · next h => cases hopen.symm.trans h

theorem fill_of_unclosed (hopen : splitAtPair '\x7b' cs = some (before, after))
    (hclose : splitAtPair '\x7d' after = none) : fill fields cs = cs := by
  rw [fill]
  split
  · rfl
  · next h =>
    cases hopen.symm.trans h
    split
    · rfl
    · next h' => cases hclose.symm.trans h'

theorem fill_of_closed {inside rest : List Char}
    (hopen : splitAtPair '\x7b' cs = some (before, after))
    (hclose : splitAtPair '\x7d' after = some (inside, rest)) :
    fill fields cs = before ++ (fieldChars fields inside ++ fill fields rest) := by
  rw [fill]
  split
  · next h => cases hopen.symm.trans h
  · next h =>
    cases hopen.symm.trans h
    split
    · next h' => cases hclose.symm.trans h'
    · next h' =>
      cases hclose.symm.trans h'
      rfl

end Scan

/-! ## Layouts -/

/-- A text cut at its placeholders. -/
inductive Layout where
  /-- No braces are opened. -/
  | plain (last : List Char) (unopened : ¬['\x7b', '\x7b'] <:+: last)
  /-- Braces are opened and never closed. -/
  | unclosed (last rest : List Char) (opened : FirstPair '\x7b' last)
      (never : ¬['\x7d', '\x7d'] <:+: rest)
  /-- Braces are opened and closed, and a merge field is named between them. -/
  | placeholder (before inside : List Char) (name : String) (opened : FirstPair '\x7b' before)
      (closed : FirstPair '\x7d' inside) (named : Trims inside name.toList) (next : Layout)

namespace Layout

/-- The text that is cut. -/
def chars : Layout → List Char
  | plain last _ => last
  | unclosed last rest _ _ => last ++ '\x7b' :: '\x7b' :: rest
  | placeholder before inside _ _ _ _ next =>
    before ++ '\x7b' :: '\x7b' :: (inside ++ '\x7d' :: '\x7d' :: next.chars)

/-- The merge fields that are named, from the left. -/
def names : Layout → List String
  | placeholder _ _ name _ _ _ next => name :: next.names
  | _ => []

/-- The text with a value in the place of each placeholder. -/
def filled (fields : Table String String) : Layout → List Char
  | plain last _ => last
  | unclosed last rest _ _ => last ++ '\x7b' :: '\x7b' :: rest
  | placeholder before _ name _ _ _ next =>
    before ++ ((fields.find? name).elim [] String.toList ++ next.filled fields)

theorem filled_congr {fields fields' : Table String String} {layout : Layout}
    (h : ∀ name ∈ layout.names, fields.find? name = fields'.find? name) :
    layout.filled fields = layout.filled fields' := by
  induction layout with
  | plain | unclosed => rfl
  | placeholder before inside name _ _ _ next ih =>
    have hnext := ih fun n hn => h n (List.mem_cons_of_mem _ hn)
    simp only [filled, h name List.mem_cons_self, hnext]

/-- Every text can be cut at its placeholders. -/
theorem exists_chars (cs : List Char) : ∃ layout : Layout, layout.chars = cs := by
  -- the cut follows the recursion of the scan, whatever the merge fields are
  induction cs using fill.induct with
  | case1 cs hopen => exact ⟨.plain cs (splitAtPair_eq_none.1 hopen), rfl⟩
  | case2 cs before after hopen hclose =>
    obtain ⟨rfl, hbefore⟩ := splitAtPair_eq_some hopen
    exact ⟨.unclosed before after hbefore (splitAtPair_eq_none.1 hclose), rfl⟩
  | case3 cs before after hopen inside rest hclose ih =>
    obtain ⟨rfl, hbefore⟩ := splitAtPair_eq_some hopen
    obtain ⟨rfl, hinside⟩ := splitAtPair_eq_some hclose
    obtain ⟨next, hnext⟩ := ih
    have hname : Trims inside (String.ofList (trimChars inside)).toList := by
      rw [String.toList_ofList]
      exact trims_trimChars inside
    exact ⟨.placeholder before inside _ hbefore hinside hname next, by rw [chars, hnext]⟩

/-- The first cut of a layout is where the scan finds it. -/
theorem splitAtPair_chars (layout : Layout) : splitAtPair '\x7b' layout.chars =
    match layout with
    | plain _ _ => none
    | unclosed last rest _ _ => some (last, rest)
    | placeholder before inside _ _ _ _ next =>
      some (before, inside ++ '\x7d' :: '\x7d' :: next.chars) := by
  cases layout with
  | plain last unopened => exact splitAtPair_eq_none.2 unopened
  | unclosed last rest opened never => exact splitAtPair_append opened rest
  | placeholder before inside name opened closed named next => exact splitAtPair_append opened _

/-- No text can be cut in two ways. -/
theorem chars_inj {layout other : Layout} (h : layout.chars = other.chars) : layout = other := by
  induction layout generalizing other with
  | plain last unopened =>
    have hcut := splitAtPair_chars (plain last unopened)
    rw [h, splitAtPair_chars] at hcut
    cases other with
    | plain last' unopened' =>
      obtain rfl : last = last' := h
      rfl
    | unclosed | placeholder => cases hcut
  | unclosed last rest opened never =>
    have hcut := splitAtPair_chars (unclosed last rest opened never)
    rw [h, splitAtPair_chars] at hcut
    cases other with
    | plain => cases hcut
    | unclosed last' rest' opened' never' =>
      cases hcut
      rfl
    | placeholder before inside name opened' closed named next =>
      cases hcut
      exact absurd (infix_pair_append inside _) never
  | placeholder before inside name opened closed named next ih =>
    have hcut := splitAtPair_chars (placeholder before inside name opened closed named next)
    rw [h, splitAtPair_chars] at hcut
    cases other with
    | plain => cases hcut
    | unclosed last rest opened' never =>
      cases hcut
      exact absurd (infix_pair_append inside _) never
    | placeholder before' inside' name' opened' closed' named' next' =>
      injection hcut with hcut
      obtain ⟨rfl, hafter⟩ := Prod.mk.inj hcut
      have hclose := splitAtPair_append closed next.chars
      rw [← hafter, splitAtPair_append closed'] at hclose
      injection hclose with hclose
      obtain ⟨rfl, hnext⟩ := Prod.mk.inj hclose
      have hname := named'.trimChars_eq.symm.trans named.trimChars_eq
      obtain rfl := String.toList_inj.1 hname
      obtain rfl := ih hnext.symm
      rfl

/-- What the scan puts together is what the layout says. -/
theorem fill_chars (fields : Table String String) (layout : Layout) :
    fill fields layout.chars = layout.filled fields := by
  induction layout with
  | plain last unopened => exact fill_of_unopened fields (splitAtPair_eq_none.2 unopened)
  | unclosed last rest opened never =>
    exact fill_of_unclosed fields (splitAtPair_append opened rest) (splitAtPair_eq_none.2 never)
  | placeholder before inside name opened closed named next ih =>
    have hopen := splitAtPair_append opened (inside ++ '\x7d' :: '\x7d' :: next.chars)
    have hclose := splitAtPair_append closed next.chars
    rw [chars, fill_of_closed fields hopen hclose, ih, fieldChars, named.trimChars_eq,
      String.ofList_toList, filled]
    cases fields.find? name <;> rfl

end Layout

/-- **One pass, no injection.** Every text is cut at its placeholders in one way. Substitution keeps
what stands before, between and after them, and puts the value of the merge field that it names, or
nothing, in the place of each. What it gives depends on no other merge field. -/
theorem substitute_by_layout (text : String) :
    ∃ layout : Layout,
      (layout.chars = text.toList ∧ ∀ other : Layout, other.chars = text.toList → other = layout) ∧
      (∀ fields, substitute text fields = String.ofList (layout.filled fields)) ∧
      ∀ fields fields', (∀ name ∈ layout.names, fields.find? name = fields'.find? name) →
        substitute text fields = substitute text fields' := by
  obtain ⟨layout, hchars⟩ := Layout.exists_chars text.toList
  have hfilled (fields : Table String String) :
      substitute text fields = String.ofList (layout.filled fields) := by
    rw [substitute, ← hchars, Layout.fill_chars]
  refine ⟨layout, ⟨hchars, fun other hother => ?_⟩, hfilled, fun fields fields' hagree => ?_⟩
  · exact Layout.chars_inj (hother.trans hchars.symm)
  · rw [hfilled, hfilled, Layout.filled_congr hagree]

/-- A name between blanks, a third brace, and braces that stay open. -/
def greeting : String :=
  "Dear \x7b\x7b first\u3000\x7d\x7d\x7b\x7b\x7bx\x7d\x7d, \x7b\x7b"

/-- The third brace belongs to the name. -/
def greetingLayout : Layout :=
  .placeholder ['D', 'e', 'a', 'r', ' '] [' ', 'f', 'i', 'r', 's', 't', '\u3000'] "first" (by simp)
    (by simp) ⟨⟨[' '], ['\u3000'], by decide +kernel, by simp [isBlank], by simp [isBlank]⟩,
      by simp [isBlank], by simp [isBlank]⟩
    (.placeholder [] ['\x7b', 'x'] "\x7bx" (by simp) (by simp)
      ⟨⟨[], [], by decide +kernel, by simp, by simp⟩, by simp [isBlank], by simp [isBlank]⟩
      (.unclosed [',', ' '] [] (by simp) (by simp)))

/-- A value that looks like a placeholder. -/
def braced : Table String String := Table.empty.insert "first" "\x7b\x7bx\x7d\x7d"

theorem substitute_by_layout_greeting :
    greetingLayout.chars = greeting.toList ∧
      substitute greeting braced = "Dear \x7b\x7bx\x7d\x7d, \x7b\x7b" ∧
      (∀ name ∈ greetingLayout.names, braced.find? name = (braced.insert "x" "Ada").find? name) ∧
      substitute greeting braced = substitute greeting (braced.insert "x" "Ada") := by
  obtain ⟨layout, ⟨hchars, hunique⟩, hfilled, hagree⟩ := substitute_by_layout greeting
  obtain rfl : greetingLayout = layout := hunique greetingLayout (by decide +kernel)
  have hnames : ∀ name ∈ greetingLayout.names,
      braced.find? name = (braced.insert "x" "Ada").find? name := by decide +kernel
  exact ⟨hchars, (hfilled braced).trans (by decide +kernel), hnames, hagree _ _ hnames⟩

end Template

end MailCampaign
