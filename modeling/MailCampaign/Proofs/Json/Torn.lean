import MailCampaign.Json.Read
import MailCampaign.Proofs.Json.Parse

/-!
# Texts that break off

A text is kept as a value only if it closes every container that it opens and has no stray characters.

1. One token opens a container, closes one or leaves the open ones as they are, and where the machine
   breaks off nothing is kept (`parse_cons`, `parse_keepable`).
2. In the tokens of a value no container is closed before it was opened (`Level`). So a written object
   that ends before its last character leaves a container open (`open_of_torn`).
3. What is written behind such a text is taken apart as by itself, or it falls into a literal that is
   still open and has a stray character in it (`Cut.Unfinished.object`).
-/

namespace MailCampaign

namespace Source

variable {room : Nat} {j : Source}

theorem keepable_of_mem_items {l : List Source} (h : keepableItems room l = true) (hj : j ∈ l) :
    j.keepable room = true := by
  induction l with
  | nil => cases hj
  | cons i rest ih =>
    rw [keepableItems, Bool.and_eq_true] at h
    rcases List.mem_cons.1 hj with rfl | hj
    · exact h.1
    · exact ih h.2 hj

theorem keepable_of_mem_fields {l : List (Option String × Source)} {name : Option String}
    (h : keepableFields room l = true) (hj : (name, j) ∈ l) : j.keepable room = true := by
  induction l with
  | nil => cases hj
  | cons f rest ih =>
    rw [keepableFields, Bool.and_eq_true, Bool.and_eq_true] at h
    rcases List.mem_cons.1 hj with rfl | hj
    · exact h.1.2
    · exact ih h.2 hj

end Source

namespace Json

variable {expect : Expect} {stack : List Frame} {ts rest : List Token} {t : Token} {j : Source} {room : Nat}

/-! ## Open containers -/

/-- How many containers a token opens, less those that it closes. -/
def Token.rise : Token → Int
  | .openArr | .openObj => 1
  | .closeArr | .closeObj => -1
  | _ => 0

/-- How many containers tokens leave open. -/
def depth : List Token → Int
  | [] => 0
  | t :: rest => t.rise + depth rest

@[simp] theorem depth_nil : depth [] = 0 := rfl

@[simp] theorem depth_cons (t : Token) (ts : List Token) : depth (t :: ts) = t.rise + depth ts := rfl

@[simp] theorem depth_append (ts more : List Token) : depth (ts ++ more) = depth ts + depth more := by
  induction ts with
  | nil => simp
  | cons t rest ih => rw [List.cons_append, depth_cons, depth_cons, ih, Int.add_assoc]

@[simp] theorem depth_reverse (ts : List Token) : depth ts.reverse = depth ts := by
  induction ts with
  | nil => rfl
  | cons t rest ih =>
    rw [List.reverse_cons, depth_append, ih, depth_cons, depth_cons, depth_nil]
    omega

@[simp] theorem rise_numberToken (cs : List Char) : (numberToken cs).rise = 0 := by
  unfold numberToken
  split <;> rfl

/-- A value in a container is kept with the container only if it can be kept itself. -/
theorem Frame.keepable_add {f : Frame} (h : (f.add j).close.keepable room = true) :
    ∃ room', j.keepable room' = true := by
  cases f <;> cases room <;> simp only [Frame.add, Frame.close, Source.keepable, Bool.false_eq_true] at h
  · exact ⟨_, Source.keepable_of_mem_items h (by simp)⟩
  · exact ⟨_, Source.keepable_of_mem_fields h (List.mem_reverse.2 List.mem_cons_self)⟩

theorem keepable_enclose (h : (enclose j stack).keepable room = true) :
    ∃ room', j.keepable room' = true := by
  induction stack generalizing j room with
  | nil => exact ⟨room, h⟩
  | cons f stack ih =>
    obtain ⟨room', hadd⟩ := ih h
    exact Frame.keepable_add hadd

/-- Where a text breaks off, nothing is kept. -/
theorem not_keepable_breakOff (stack : List Frame) (room : Nat) :
    (breakOff stack).1.keepable room ≠ true := by
  intro h
  obtain ⟨room', htorn⟩ := keepable_enclose h
  simp [Source.keepable] at htorn

/-- With a token the machine breaks off, ends with the value that was open, or goes on. -/
theorem parse_cons (t : Token) (rest : List Token) (stack : List Frame) (expect : Expect) :
    parse (t :: rest) stack expect = breakOff stack ∨ t ≠ .stray ∧
      ((stack.length + t.rise = 0 ∧ ∃ j, parse (t :: rest) stack expect = (j, rest)) ∨
        ∃ (stack' : List Frame) (expect' : Expect), (stack'.length : Int) = stack.length + t.rise ∧
          parse (t :: rest) stack expect = parse rest stack' expect') := by
  cases t <;> cases expect <;> rcases stack with _ | ⟨_ | _, _ | ⟨_, _⟩⟩ <;> first
    | exact .inl rfl
    | exact .inr ⟨nofun, .inl ⟨by simp [Token.rise], _, rfl⟩⟩
    | exact .inr ⟨nofun, .inr ⟨_, _, by
        simp only [List.length_cons, List.length_nil, Token.rise]
        omega, rfl⟩⟩

/-- A text that is kept as a whole has no stray characters and closes what is open. -/
theorem parse_keepable (h : parse ts stack expect = (j, [])) (hj : j.keepable room = true) :
    .stray ∉ ts ∧ stack.length + depth ts = 0 := by
  induction ts generalizing stack expect with
  | nil =>
    rw [parse] at h
    exact absurd (h ▸ hj) (not_keepable_breakOff stack room)
  | cons t rest ih =>
    rw [List.mem_cons, not_or, depth_cons]
    rcases parse_cons t rest stack expect with
      hbreak | ⟨ht, ⟨hlevel, i, hend⟩ | ⟨stack', expect', hlevel, hgo⟩⟩
    · rw [hbreak] at h
      exact absurd (h ▸ hj) (not_keepable_breakOff stack room)
    · obtain rfl : rest = [] := (Prod.mk.inj (hend.symm.trans h)).2
      exact ⟨⟨Ne.symm ht, by simp⟩, by simpa using hlevel⟩
    · obtain ⟨hstray, hdepth⟩ := ih (hgo ▸ h)
      exact ⟨⟨Ne.symm ht, hstray⟩, by omega⟩

/-! ## The tokens of values -/

/-- Tokens that close what they open, and nothing before it was opened. -/
def Level (ts : List Token) : Prop := depth ts = 0 ∧ ∀ l, l <+: ts → 0 ≤ depth l

theorem Level.append {more : List Token} (h : Level ts) (hmore : Level more) : Level (ts ++ more) := by
  refine ⟨by rw [depth_append, h.1, hmore.1]; rfl, fun l hl => ?_⟩
  obtain ⟨r, hr⟩ := hl
  rcases List.append_eq_append_iff.1 hr with ⟨l', hts, -⟩ | ⟨l', rfl, hl'⟩
  · exact h.2 l ⟨l', hts.symm⟩
  · have := hmore.2 l' ⟨r, hl'.symm⟩
    rw [depth_append, h.1]
    omega

theorem Level.cons (ht : t.rise = 0) (h : Level ts) : Level (t :: ts) := by
  refine ⟨by rw [depth_cons, ht, h.1]; rfl, fun l hl => ?_⟩
  rcases List.prefix_cons_iff.1 hl with rfl | ⟨l', rfl, hl'⟩
  · simp
  · have := h.2 l' hl'
    rw [depth_cons, ht]
    omega

/-- A container is level if what it holds is. -/
theorem Level.enclosed {first last : Token} (h : Level ts) (hfirst : first.rise = 1)
    (hlast : last.rise = -1) : Level (first :: (ts ++ [last])) := by
  refine ⟨by simp [hfirst, hlast, h.1], fun l hl => ?_⟩
  rcases List.prefix_cons_iff.1 hl with rfl | ⟨l', rfl, hl'⟩
  · simp
  · rw [depth_cons, hfirst]
    rcases List.prefix_concat_iff.1 hl' with rfl | hl'
    · simp [h.1, hlast]
    · have := h.2 l' hl'
      omega

theorem level_nil : Level [] := ⟨rfl, fun l hl => by simp [List.prefix_nil.1 hl]⟩

theorem level_singleton (ht : t.rise = 0) : Level [t] := level_nil.cons ht

theorem level_items {items : List Json} (h : ∀ j ∈ items, Level (tokensOf j)) :
    Level (itemTokens items) := by
  induction items with
  | nil => exact level_nil
  | cons j rest ih =>
    have hj := h j List.mem_cons_self
    cases rest with
    | nil => exact hj
    | cons j' more =>
      exact hj.append (.cons rfl (ih fun i hi => h i (List.mem_cons_of_mem j hi)))

theorem level_fields {fields : List (String × Json)} (h : ∀ f ∈ fields, Level (tokensOf f.2)) :
    Level (fieldTokens fields) := by
  induction fields with
  | nil => exact level_nil
  | cons f rest ih =>
    have hf := h f List.mem_cons_self
    cases rest with
    | nil => exact .cons rfl (.cons rfl hf)
    | cons f' more =>
      exact .cons rfl (.cons rfl (hf.append (.cons rfl (ih fun i hi => h i (List.mem_cons_of_mem f hi)))))

theorem Legible.level {n : Nat} {j : Json} (h : Legible n j) : Level (tokensOf j) := by
  induction h with
  | null | bool | int | str => exact level_singleton rfl
  | arr _ ih => exact (level_items ih).enclosed rfl rfl
  | obj _ ih => exact (level_fields ih).enclosed rfl rfl

/-! ## Cutting a text that ends early -/

variable {cut : Cut}

theorem Cut.tokens_outside (toks : List Token) (c : Char) : toks <:+ (Cut.outside toks c).tokens := by
  unfold Cut.outside
  split_ifs
  · exact List.suffix_rfl
  · exact List.suffix_rfl
  · exact List.suffix_rfl
  · split
    · exact List.suffix_cons _ _
    · exact List.suffix_rfl
    · exact List.suffix_cons _ _

/-- A character takes no token away. -/
theorem Cut.tokens_next (cut : Cut) (c : Char) : cut.tokens <:+ (cut.next c).tokens := by
  obtain ⟨toks, within⟩ := cut
  cases within with
  | gap => exact Cut.tokens_outside toks c
  | number cs =>
    simp only [Cut.next]
    split_ifs
    · exact List.suffix_rfl
    · exact (List.suffix_cons _ _).trans (Cut.tokens_outside _ c)
  | word | string | escape | code =>
    simp only [Cut.next]
    repeat' split
    all_goals first
      | exact List.suffix_rfl
      | exact List.suffix_cons _ _

theorem Cut.tokens_foldl (cut : Cut) (cs : List Char) : cut.tokens <:+ (cs.foldl Cut.next cut).tokens := by
  induction cs generalizing cut with
  | nil => exact List.suffix_rfl
  | cons c rest ih => exact (cut.tokens_next c).trans (ih (cut.next c))

theorem Cut.Holds.tokens_suffix (h : cut.Holds ts) : cut.tokens <:+ ts := by
  rcases h with rfl | ⟨older, cs, rfl, rfl⟩
  · exact List.suffix_rfl
  · exact List.suffix_cons _ _

/-- What is found at the end of a text is one token at most, and that opens nothing. -/
theorem Cut.finish_eq (cut : Cut) :
    ∃ last, cut.finish = cut.tokens.reverse ++ last ∧ depth last = 0 := by
  obtain ⟨toks, within⟩ := cut
  cases within with
  | gap => exact ⟨[], by simp [Cut.finish], rfl⟩
  | number cs => exact ⟨[numberToken cs.reverse], by simp [Cut.finish], by simp⟩
  | word | string | escape | code => exact ⟨[.stray], by simp [Cut.finish], rfl⟩

/-- No word goes on with a brace. -/
def Cut.Braceless (cut : Cut) : Prop := ∀ rest j, cut.within = .word rest j → '\x7b' ∉ rest

theorem Cut.braceless_outside (toks : List Token) (c : Char) : (Cut.outside toks c).Braceless := by
  intro rest j hw
  unfold Cut.outside at hw
  split_ifs at hw
  split at hw
  · cases hw
  · next hword =>
    cases hw
    unfold word? at hword
    split at hword <;> cases hword <;> decide
  · cases hw

theorem Cut.braceless_of_no_word (h : ∀ rest j, cut.within ≠ .word rest j) : cut.Braceless :=
  fun rest j hw => absurd hw (h rest j)

theorem Cut.Braceless.next (h : cut.Braceless) (c : Char) : (cut.next c).Braceless := by
  obtain ⟨toks, within⟩ := cut
  cases within with
  | gap => exact Cut.braceless_outside toks c
  | number cs =>
    simp only [Cut.next]
    split_ifs
    · exact Cut.braceless_of_no_word (by simp)
    · exact Cut.braceless_outside _ c
  | word rest j =>
    simp only [Cut.next]
    split_ifs
    · exact Cut.braceless_of_no_word (by simp)
    · intro rest' j' hw hm
      cases hw
      exact h rest j rfl (List.mem_of_mem_tail hm)
    · exact Cut.braceless_of_no_word (by simp)
  | string | escape | code =>
    simp only [Cut.next]
    repeat' split
    all_goals exact Cut.braceless_of_no_word (by simp)

theorem Cut.Braceless.foldl (h : cut.Braceless) (cs : List Char) : (cs.foldl Cut.next cut).Braceless := by
  induction cs generalizing cut with
  | nil => exact h
  | cons c rest ih => exact ih (h.next c)

/-- A cut with a container that is still open. -/
structure Cut.Unfinished (cut : Cut) : Prop where
  depth : 1 ≤ depth cut.tokens
  braceless : cut.Braceless

/-- A written object that ends before its last character leaves a container open. -/
theorem unfinished_of_torn {n : Nat} {fields : List (String × Json)} {p r : List Char}
    (h : Legible n (.obj fields)) (hp : p ++ r = (Json.obj fields).chars) (hne : p ≠ []) (hr : r ≠ []) :
    (p.foldl Cut.next ⟨[], .gap⟩).Unfinished := by
  have hgap : Cut.Braceless ⟨[], .gap⟩ := Cut.braceless_of_no_word (by simp)
  refine ⟨?_, hgap.foldl p⟩
  cases h with
  | obj hfields =>
    obtain ⟨c, p, rfl⟩ := List.exists_cons_of_ne_nil hne
    rw [chars, List.cons_append, List.cons.injEq] at hp
    obtain ⟨rfl, hp⟩ := hp
    have hprefix : p <+: fieldsText fields := by
      rcases List.prefix_concat_iff.1 (⟨r, hp⟩ : p <+: fieldsText fields ++ ['\x7d']) with rfl | hprefix
      · exact absurd (List.append_right_eq_self.1 hp) hr
      · exact hprefix
    obtain ⟨q, hq⟩ := hprefix
    have hholds := holds_fields (fun f hf => (hfields f hf).holds) [.openObj]
    rw [← hq, List.foldl_append] at hholds
    -- The tokens of the part are some of those of the fields, behind the opening brace.
    have hfew := (Cut.tokens_foldl (p.foldl Cut.next ⟨[.openObj], .gap⟩) q).trans hholds.tokens_suffix
    obtain ⟨found, hfound⟩ := Cut.tokens_foldl ⟨[.openObj], .gap⟩ p
    have hlevel : 0 ≤ depth found.reverse := by
      refine (level_fields fun f hf => (hfields f hf).level).2 _ ?_
      rw [← hfound] at hfew
      have := List.suffix_append_self_iff.1 hfew
      simpa using List.reverse_prefix.2 this
    show 1 ≤ depth (p.foldl Cut.next ⟨[.openObj], .gap⟩).tokens
    rw [← hfound, depth_append]
    rw [depth_reverse] at hlevel
    simp only [depth_cons, depth_nil, Token.rise]
    omega

/-! ## What is not kept -/

/-- Tokens of no value that can be kept. -/
def Faulty (ts : List Token) : Prop := .stray ∈ ts ∨ depth ts ≠ 0

theorem Cut.Unfinished.finish (h : cut.Unfinished) : Faulty cut.finish := by
  obtain ⟨last, hlast, hdepth⟩ := cut.finish_eq
  have hopen := h.depth
  right
  rw [hlast, depth_append, depth_reverse, hdepth]
  omega

/-- A stray character is not made good by what follows. -/
theorem faulty_of_stray (h : .stray ∈ cut.tokens) (cs : List Char) :
    Faulty (cs.foldl Cut.next cut).finish := by
  obtain ⟨last, hlast, -⟩ := (cs.foldl Cut.next cut).finish_eq
  left
  rw [hlast, List.mem_append, List.mem_reverse]
  exact .inl ((cut.tokens_foldl cs).mem h)

/-- Behind a text that ends early, a written object leaves the text as faulty as it was. -/
theorem Cut.Unfinished.object {n : Nat} {fields : List (String × Json)} {more : List Char}
    (h : cut.Unfinished) (hobj : Legible n (.obj fields))
    (hk : (Json.obj fields).chars = '\x7b' :: '"' :: 'k' :: more) :
    Faulty ((Json.obj fields).chars.foldl Cut.next cut).finish := by
  have hapart : ∀ toks, 1 ≤ Json.depth toks →
      Faulty ((Json.obj fields).chars.foldl Cut.next ⟨toks, .gap⟩).finish := by
    intro toks htoks
    rw [(hobj.holds toks).finish]
    right
    rw [depth_reverse, depth_append, depth_reverse, hobj.level.1]
    omega
  obtain ⟨toks, within⟩ := cut
  have hdepth : 1 ≤ Json.depth toks := h.depth
  cases within with
  | gap => exact hapart toks hdepth
  | number cs =>
    -- A brace ends the number.
    have hbrace : Cut.next ⟨toks, .number cs⟩ '\x7b' =
        Cut.next ⟨numberToken cs.reverse :: toks, .gap⟩ '\x7b' := rfl
    have hnumber := hapart (numberToken cs.reverse :: toks) (by simpa using hdepth)
    rw [hk, List.foldl_cons] at hnumber ⊢
    rw [hbrace]
    exact hnumber
  | word rest j =>
    have hrest : '\x7b' ∉ rest := h.braceless rest j rfl
    have hbrace : Cut.next ⟨toks, .word rest j⟩ '\x7b' = ⟨.stray :: toks, .gap⟩ := by
      simp only [Cut.next]
      rw [if_neg fun he : rest = ['\x7b'] => hrest (he ▸ List.mem_singleton_self _),
        if_neg fun he : rest.head? = some '\x7b' => hrest (List.mem_of_mem_head? he)]
    rw [hk, List.foldl_cons, hbrace]
    exact faulty_of_stray List.mem_cons_self _
  | string points =>
    -- The quote of the first name ends the string, and the name begins with a stray character.
    have hname : Cut.next (Cut.next (Cut.next ⟨toks, .string points⟩ '\x7b') '"') 'k' =
        ⟨.stray :: stringToken ('\x7b'.toNat :: points).reverse :: toks, .gap⟩ := rfl
    rw [hk, List.foldl_cons, List.foldl_cons, List.foldl_cons, hname]
    exact faulty_of_stray List.mem_cons_self _
  | escape points =>
    have hbrace : Cut.next ⟨toks, .escape points⟩ '\x7b' = ⟨.stray :: toks, .gap⟩ := rfl
    rw [hk, List.foldl_cons, hbrace]
    exact faulty_of_stray List.mem_cons_self _
  | code points missing value =>
    have hbrace : Cut.next ⟨toks, .code points missing value⟩ '\x7b' = ⟨.stray :: toks, .gap⟩ := rfl
    rw [hk, List.foldl_cons, hbrace]
    exact faulty_of_stray List.mem_cons_self _

end Json

namespace Source

open Json

variable {n : Nat} {j : Source} {room : Nat} {cs : List Char} {fields : List (String × Json)}

theorem ofText_ofList (cs : List Char) :
    ofText (String.ofList cs) =
      ((parse (cs.foldl Cut.next ⟨[], .gap⟩).finish [] .value).1,
        !(parse (cs.foldl Cut.next ⟨[], .gap⟩).finish [] .value).2.isEmpty) := by
  rw [ofText, String.toList_ofList, ofPieces, tokens_map_some]

/-- A text that is kept, with nothing behind it, is not faulty. -/
theorem not_faulty (h : ofText (String.ofList cs) = (j, false)) (hj : j.keepable room = true) :
    ¬Faulty (cs.foldl Cut.next ⟨[], .gap⟩).finish := by
  rw [ofText_ofList, Prod.mk.injEq, Bool.not_eq_false', List.isEmpty_iff] at h
  obtain ⟨hstray, hdepth⟩ := parse_keepable (Prod.ext rfl h.2) (h.1 ▸ hj)
  rintro (hs | hd)
  · exact hstray hs
  · exact hd (by simpa using hdepth)

/-- Behind a written object there is other text when another one follows. -/
theorem ofText_two {more : List (String × Json)} (h : Legible n (.obj fields))
    (hmore : Legible n (.obj more)) :
    (ofText (String.ofList ((Json.obj fields).chars ++ (Json.obj more).chars))).2 = true := by
  have htext : (Json.obj more).chars = '\x7b' :: (fieldsText more ++ ['\x7d']) := by rw [chars]
  have hopen : Cut.next ((Json.obj fields).chars.foldl Cut.next ⟨[], .gap⟩) '\x7b' =
      Cut.next ⟨(tokensOf (.obj fields)).reverse ++ [], .gap⟩ '\x7b' :=
    (h.holds []).mark (t := .openObj) rfl
  have htokens : (((Json.obj fields).chars ++ (Json.obj more).chars).foldl Cut.next ⟨[], .gap⟩).finish =
      tokensOf (.obj fields) ++ tokensOf (.obj more) := by
    have hholds := hmore.holds ((tokensOf (.obj fields)).reverse ++ [])
    rw [htext, List.foldl_cons] at hholds
    rw [List.foldl_append, htext, List.foldl_cons, hopen, hholds.finish]
    simp
  rw [ofText_ofList, htokens, h.parses _ _ _ .value]
  rfl

end Source

end MailCampaign
