/-
Headings of declarations.

The search for headings knows nothing of comments. **It finds the declared name and the declared parameters
exactly if there are only blanks between the tokens** (`Header.heading_of_blank`, `Header.blank_of_heading`):
a comment before the name or before the first parenthesis hides the heading, one behind that ends up in the
names of the parameters. Where there are only blanks, no other heading begins inside (`Header.quiet`).
-/
import ScriptWorkbench.Proofs.Headings
import ScriptWorkbench.Proofs.ParameterLists
import ScriptWorkbench.Proofs.SourceSlices

namespace ScriptWorkbench.Package

open List hiding dropPrefix?

open Text Token

variable {before cs ds gap rest : List Char} {c : Char} {ss : List Slice} {names : List String}

/-! ## Stretches in which no heading begins -/

def Quiet (cs rest : List Char) : Prop := ∀ k < cs.length, heading? ((cs ++ rest).drop k) = none

theorem quiet_nil (rest : List Char) : Quiet [] rest := fun _ hk => absurd hk (Nat.not_lt_zero _)

theorem quiet_cons :
    Quiet (c :: cs) rest ↔ heading? (c :: (cs ++ rest)) = none ∧ Quiet cs rest := by
  constructor
  · exact fun h => ⟨h 0 (Nat.succ_pos _), fun k hk => h (k + 1) (Nat.succ_lt_succ hk)⟩
  · rintro ⟨hc, hcs⟩ k hk
    cases k with
    | zero => exact hc
    | succ k => exact hcs k (Nat.lt_of_succ_lt_succ hk)

theorem Quiet.append (h : Quiet cs (ds ++ rest)) (hds : Quiet ds rest) :
    Quiet (cs ++ ds) rest := by
  induction cs with
  | nil => exact hds
  | cons c cs ih =>
    rw [quiet_cons] at h
    rw [cons_append, quiet_cons, append_assoc]
    exact ⟨h.1, ih h.2⟩

theorem heading?_of_ne (hc : c ≠ 'f') (cs : List Char) : heading? (c :: cs) = none := by
  rw [heading?, dropPrefix?, if_neg (Ne.symm hc)]
  rfl

theorem quiet_of_forall_ne (h : ∀ c ∈ cs, c ≠ 'f') (rest : List Char) :
    Quiet cs rest := by
  induction cs with
  | nil => exact quiet_nil rest
  | cons c cs ih =>
    rw [forall_mem_cons] at h
    exact quiet_cons.2 ⟨heading?_of_ne h.1 _, ih h.2⟩

theorem quiet_of_blank (h : ∀ c ∈ gap, isBlank c = true) (rest : List Char) :
    Quiet gap rest :=
  quiet_of_forall_ne (fun c hc => ne_of_isBlank (h c hc) (by decide)) rest

theorem append_inj_of_stop {p : Char → Bool} {cs ds rest rest' : List Char}
    (hcs : ∀ c ∈ cs, p c = true) (hrest : ∀ c ∈ rest.head?, p c = false)
    (hds : ∀ c ∈ ds, p c = true) (hrest' : ∀ c ∈ rest'.head?, p c = false)
    (h : cs ++ rest = ds ++ rest') : cs = ds ∧ rest = rest' := by
  have hfirst := takeWhile_append_of_stop hcs hrest
  have hsecond := takeWhile_append_of_stop hds hrest'
  rw [h] at hfirst
  exact ⟨hfirst.1.symm.trans hsecond.1, hfirst.2.symm.trans hsecond.2⟩

theorem stops_at_word {name : List Char} (hname : name ≠ [] ∧ ∀ c ∈ name, isWordChar c = true)
    (rest : List Char) : ∀ c ∈ (name ++ rest).head?, isBlank c = false := by
  obtain ⟨d, ds, rfl⟩ := exists_cons_of_ne_nil hname.1
  rintro c ⟨⟩
  exact isBlank_of_isWordChar (hname.2 d mem_cons_self)

theorem quiet_word {word : List Char} (hword : ∀ c ∈ word, isWordChar c = true)
    (hgap : ∀ c ∈ gap, isBlank c = true) (hc : isWordChar c = false)
    (hblank : isBlank c = false) (rest : List Char) : Quiet word (gap ++ c :: rest) := by
  induction word with
  | nil => exact quiet_nil _
  | cons d word ih =>
    refine quiet_cons.2 ⟨?_, ih (forall_mem_cons.1 hword).2⟩
    cases hheading : heading? (d :: (word ++ (gap ++ c :: rest))) with
    | none => rfl
    | some h =>
      -- the word would be `func`, and the symbol the first character of a name
      obtain ⟨gap', _, tail, hgap', hname, -, -, -, -, heq⟩ := heading?_eq_some_iff.1 hheading
      obtain ⟨b, bs, rfl⟩ := exists_cons_of_ne_nil hgap'.1
      have hrest := @append_inj_of_stop _ (d :: word) _ _ _ hword (stops_at_gap hgap hc rest)
        (all_eq_true.1 (by decide : ['f', 'u', 'n', 'c'].all isWordChar = true))
        (by rintro e ⟨⟩; exact isWordChar_of_isBlank (hgap'.2 b mem_cons_self)) heq
      obtain ⟨-, hsymbol⟩ := append_inj_of_stop hgap (by rintro e ⟨⟩; exact hblank) hgap'.2
        (stops_at_word hname _) hrest.2
      obtain ⟨e, es, he⟩ := exists_cons_of_ne_nil hname.1
      rw [he] at hsymbol
      cases hsymbol
      have hword := hname.2 c (by rw [he]; exact mem_cons_self)
      rw [hc] at hword
      cases hword

/-! ## Lists of names -/

def Blank (ss : List Slice) : Prop := ∀ s ∈ ss, ∀ c ∈ s.gap, isBlank c = true

theorem blank_cons {s : Slice} :
    Blank (s :: ss) ↔ (∀ c ∈ s.gap, isBlank c = true) ∧ Blank ss :=
  forall_mem_cons

def IsWord (cs : List Char) : Prop := cs ≠ [] ∧ ∀ c ∈ cs, isWordChar c = true

/-- Slices of names with commas between them. -/
inductive Listing : List String → List Slice → Prop where
  | nothing : Listing [] []
  | one {s : Slice} : IsWord s.text → BlankOrComment s.gap → Listing [String.ofList s.text] [s]
  | more {names : List String} {s comma : Slice} {ss : List Slice} :
      IsWord s.text → BlankOrComment s.gap → comma.text = [','] → BlankOrComment comma.gap →
      Listing names ss → Listing (String.ofList s.text :: names) (s :: comma :: ss)

theorem Listing.isWord (h : Listing names ss) :
    ∀ name ∈ names, ∀ c ∈ name.toList, isWordChar c = true := by
  have hone {cs : List Char} (hcs : IsWord cs) :
      ∀ c ∈ (String.ofList cs).toList, isWordChar c = true := by
    rw [String.toList_ofList]
    exact hcs.2
  induction h with
  | nothing => exact fun _ hname => absurd hname not_mem_nil
  | one hs _ => exact forall_mem_singleton.2 (hone hs)
  | more hs _ _ _ _ ih => exact forall_mem_cons.2 ⟨hone hs, ih⟩

theorem Listing.parameterNames (h : Listing names ss) (hss : Blank ss)
    (hgap : ∀ c ∈ gap, isBlank c = true) :
    parameterNames (joined ss ++ gap) = names := by
  induction h with
  | nothing => exact parameterNames_blank hgap
  | @one s hs _ =>
    rw [joined, joined, append_nil, append_assoc]
    exact parameterNames_field (hss s mem_cons_self) hs hgap
  | @more names s comma ss hs _ hcomma _ _ ih =>
    rw [blank_cons, blank_cons] at hss
    rw [joined, joined, hcomma, ← ih hss.2.2, ← parameterNames_comma hss.1 hs hss.2.1]
    simp

theorem Listing.quiet (h : Listing names ss) (hss : Blank ss)
    (hgap : ∀ c ∈ gap, isBlank c = true) (rest : List Char) :
    Quiet (joined ss) (gap ++ ')' :: rest) := by
  induction h with
  | nothing => exact quiet_nil _
  | @one s hs _ =>
    have hs' := hss s mem_cons_self
    rw [joined, joined, append_nil]
    exact (quiet_of_blank hs' _).append (quiet_word hs.2 hgap (by decide) (by decide) rest)
  | @more names s comma ss hs _ hcomma _ _ ih =>
    rw [blank_cons, blank_cons] at hss
    rw [joined, joined, hcomma]
    refine (quiet_of_blank hss.1 _).append (.append ?_ ((quiet_of_blank hss.2.1 _).append
      (quiet_cons.2 ⟨heading?_of_ne (by decide) _, ih hss.2.2⟩)))
    rw [append_assoc]
    exact quiet_word hs.2 hss.2.1 (by decide) (by decide) _

def Harmless (cs : List Char) : Prop := ∀ c ∈ cs, c ≠ ')' ∧ c ≠ ':'

theorem Harmless.append (h : Harmless cs) (hds : Harmless ds) :
    Harmless (cs ++ ds) :=
  forall_mem_append.2 ⟨h, hds⟩

theorem harmless_of_blank (h : ∀ c ∈ gap, isBlank c = true) : Harmless gap :=
  fun c hc => ⟨ne_of_isBlank (h c hc) (by decide), ne_of_isBlank (h c hc) (by decide)⟩

theorem IsWord.harmless (h : IsWord cs) : Harmless cs := by
  refine fun c hc => ⟨?_, ?_⟩ <;> rintro rfl <;> exact absurd (h.2 _ hc) (by decide)

def Spoilt (cs : List Char) : Prop :=
  ∃ before c behind, cs = before ++ c :: behind ∧ Harmless before ∧ (c = '#' ∨ c = '/')

theorem Spoilt.append (h : Spoilt cs) (rest : List Char) : Spoilt (cs ++ rest) := by
  obtain ⟨before, c, behind, rfl, hbefore, hc⟩ := h
  exact ⟨before, c, behind ++ rest, by simp, hbefore, hc⟩

theorem Spoilt.behind (h : Spoilt cs) (hds : Harmless ds) :
    Spoilt (ds ++ cs) := by
  obtain ⟨before, c, behind, rfl, hbefore, hc⟩ := h
  exact ⟨ds ++ before, c, behind, by simp, hds.append hbefore, hc⟩

theorem blank_or_spoilt (h : BlankOrComment gap) :
    (∀ c ∈ gap, isBlank c = true) ∨ Spoilt gap := by
  obtain hblank | ⟨bs, c, more, rfl, hbs, hc⟩ := h
  · exact .inl hblank
  · exact .inr ⟨bs, c, more, rfl, harmless_of_blank hbs, hc⟩

theorem Listing.harmless (h : Listing names ss) (hss : Blank ss) : Harmless (joined ss) := by
  induction h with
  | nothing => exact fun c hc => absurd hc not_mem_nil
  | @one s hs _ =>
    rw [joined, joined, append_nil]
    exact (harmless_of_blank (hss s mem_cons_self)).append hs.harmless
  | @more names s comma ss hs _ hcomma _ _ ih =>
    rw [blank_cons, blank_cons] at hss
    rw [joined, joined, hcomma]
    have hsign : Harmless [','] := by simp [Harmless]
    exact (harmless_of_blank hss.1).append (hs.harmless.append
      ((harmless_of_blank hss.2.1).append (hsign.append (ih hss.2.2))))

theorem Listing.blank_or_spoilt (h : Listing names ss) :
    Blank ss ∨ Spoilt (joined ss) := by
  induction h with
  | nothing => exact .inl fun s hs => absurd hs not_mem_nil
  | @one s _ hgap =>
    exact (Package.blank_or_spoilt hgap).imp forall_mem_singleton.2 fun h => h.append _
  | @more names s comma ss hs hgap hcomma hgap' _ ih =>
    rw [joined, joined, hcomma]
    have hsign : Harmless [','] := by simp [Harmless]
    obtain hblank | hspoilt := Package.blank_or_spoilt hgap
    · have hfront {cs : List Char} (hcs : Spoilt cs) : Spoilt (s.gap ++ (s.text ++ cs)) :=
        (hcs.behind hs.harmless).behind (harmless_of_blank hblank)
      obtain hblank' | hspoilt := Package.blank_or_spoilt hgap'
      · refine ih.imp (fun hss => ?_) fun hspoilt =>
          hfront ((hspoilt.behind hsign).behind (harmless_of_blank hblank'))
        exact blank_cons.2 ⟨hblank, blank_cons.2 ⟨hblank', hss⟩⟩
      · exact .inr (hfront (hspoilt.append _))
    · exact .inr (hspoilt.append _)

/-! ## What the search makes of a comment -/

theorem parameterList?_beyond {behind : List Char} (hbefore : Harmless before) (hc : c = ')' → ending? behind = none)
    {l : List Char × List Char × List Char}
    (hl : parameterList? (before ++ c :: behind) = some l) : ∃ more, l.1 = before ++ c :: more := by
  have hstep {d : Char} {cs : List Char} {l : List Char × List Char × List Char}
      (hd : (if d = ')' then ending? cs else none) = none) (hl : parameterList? (d :: cs) = some l) :
      ∃ l', parameterList? cs = some l' ∧ l.1 = d :: l'.1 := by
    rw [parameterList?, hd] at hl
    obtain ⟨l', hl', rfl⟩ := Option.map_eq_some_iff.1 hl
    exact ⟨l', hl', rfl⟩
  induction before generalizing l with
  | nil =>
    have hnone : (if c = ')' then ending? behind else none) = none := by
      split
      next heq => exact hc heq
      next => rfl
    obtain ⟨l', -, heq⟩ := hstep hnone hl
    exact ⟨l'.1, heq⟩
  | cons d before ih =>
    rw [Harmless, forall_mem_cons] at hbefore
    obtain ⟨l', hl', heq⟩ := hstep (if_neg hbefore.1.1) hl
    obtain ⟨more, hmore⟩ := ih hbefore.2 hl'
    exact ⟨more, by rw [heq, hmore]; rfl⟩

theorem exists_parameterName_beyond {behind : List Char} (hbefore : Harmless before)
    (hc : c = '#' ∨ c = '/' ∨ c = ')' ∧ ending? behind = none) {l : List Char × List Char × List Char}
    (hl : parameterList? (before ++ c :: behind) = some l) :
    ∃ name ∈ parameterNames l.1, ∃ d ∈ name.toList, isWordChar d = false := by
  have hstop : c = ')' → ending? behind = none := by
    obtain rfl | rfl | hc := hc
    · exact fun heq => absurd heq (by decide)
    · exact fun heq => absurd heq (by decide)
    · exact fun _ => hc.2
  have hplain : isBlank c = false ∧ isWordChar c = false ∧ c ≠ ',' ∧ c ≠ ':' := by
    obtain rfl | rfl | ⟨rfl, -⟩ := hc <;> decide
  obtain ⟨hblank, hword, hcomma, hcolon⟩ := hplain
  obtain ⟨more, hmore⟩ := parameterList?_beyond hbefore hstop hl
  obtain ⟨name, hname, hin⟩ := @exists_parameterName before more c
    (fun h => (hbefore _ h).2 rfl) hblank hcomma hcolon
  exact ⟨name, by rw [hmore]; exact hname, c, hin, hword⟩

theorem parameterList?_of_harmless (hbefore : Harmless before)
    (hgap : ∀ c ∈ gap, isBlank c = true) (rest : List Char) :
    parameterList? (before ++ ')' :: (gap ++ '{' :: rest)) =
      some (before, ')' :: (gap ++ ['{']), rest) := by
  induction before with
  | nil =>
    have hsplit := @takeWhile_append_of_stop _ _ ('{' :: rest) hgap (by rintro c ⟨⟩; decide)
    have hending : ending? (gap ++ '{' :: rest) = some (gap ++ ['{'], rest) := by
      rw [ending?, hsplit.1, hsplit.2]
      rfl
    rw [nil_append, parameterList?, hending]
    rfl
  | cons c before ih =>
    rw [Harmless, forall_mem_cons] at hbefore
    rw [cons_append, parameterList?, if_neg hbefore.1.1, ih hbefore.2]
    rfl

theorem blank_of_append {gap' rest' : List Char} (hgap : BlankOrComment gap)
    (hgap' : ∀ c ∈ gap', isBlank c = true) (hrest : ∀ c ∈ rest.head?, isBlank c = false)
    (hrest' : ∀ c ∈ rest'.head?, isBlank c = false ∧ c ≠ '#' ∧ c ≠ '/')
    (h : gap ++ rest = gap' ++ rest') :
    (∀ c ∈ gap, isBlank c = true) ∧ rest = rest' := by
  have hstop : ∀ c ∈ rest'.head?, isBlank c = false := fun c hc => (hrest' c hc).1
  obtain hblank | ⟨bs, c, more, rfl, hbs, hc⟩ := hgap
  · exact ⟨hblank, (append_inj_of_stop hblank hrest hgap' hstop h).2⟩
  · rw [append_assoc] at h
    have hmark : isBlank c = false := by obtain rfl | rfl := hc <;> decide
    obtain ⟨-, heq⟩ := append_inj_of_stop hbs (by rintro d ⟨⟩; exact hmark) hgap' hstop h
    have hne := hrest' c (by rw [← heq]; rfl)
    obtain rfl | rfl := hc
    · exact absurd rfl hne.2.1
    · exact absurd rfl hne.2.2

theorem stops_at_comment (hgap : BlankOrComment gap) (hc : isWordChar c = false)
    (rest : List Char) :
    ∀ d ∈ (gap ++ c :: rest).head?, isWordChar d = false := by
  obtain hblank | ⟨bs, mark, more, rfl, hbs, hmark⟩ := hgap
  · exact stops_at_gap hblank hc rest
  · rw [append_assoc]
    exact stops_at_gap hbs (by obtain rfl | rfl := hmark <;> decide) _

theorem ending?_of_comment {bs more : List Char} (hbs : ∀ b ∈ bs, isBlank b = true)
    (hc : c = '#' ∨ c = '/') : ending? (bs ++ c :: more) = none := by
  have hmark : isBlank c = false := by obtain rfl | rfl := hc <;> decide
  rw [ending?, (@takeWhile_append_of_stop _ _ (c :: more) hbs (by rintro d ⟨⟩; exact hmark)).2]
  obtain rfl | rfl := hc <;> rfl

/-! ## The heading of a declaration -/

/-- The slices of a heading behind the word `func`. -/
structure Header where
  name : Slice
  opens : Slice
  parameters : List Slice
  closes : Slice
  brace : Slice
  names : List String
  isWord : IsWord name.text
  text_opens : opens.text = ['(']
  listing : Listing names parameters
  text_closes : closes.text = [')']
  text_brace : brace.text = ['{']
  apart : name.gap ≠ []
  gap_name : BlankOrComment name.gap
  gap_opens : BlankOrComment opens.gap
  gap_closes : BlankOrComment closes.gap
  gap_brace : BlankOrComment brace.gap

namespace Header

def slices (h : Header) : List Slice := h.name :: h.opens :: (h.parameters ++ [h.closes, h.brace])

def list (h : Header) (rest : List Char) : List Char :=
  joined h.parameters ++ (h.closes.gap ++ ')' :: (h.brace.gap ++ '{' :: rest))

theorem joined_slices (h : Header) (rest : List Char) :
    joined h.slices ++ rest = h.name.gap ++ (h.name.text ++ (h.opens.gap ++ '(' :: h.list rest)) := by
  simp [slices, list, joined, h.text_opens, h.text_closes, h.text_brace]

theorem blank_slices {h : Header} : Blank h.slices ↔
    (∀ c ∈ h.name.gap, isBlank c = true) ∧ (∀ c ∈ h.opens.gap, isBlank c = true) ∧
      Blank h.parameters ∧ (∀ c ∈ h.closes.gap, isBlank c = true) ∧
      ∀ c ∈ h.brace.gap, isBlank c = true := by
  rw [slices, blank_cons, blank_cons, Blank, forall_mem_append, forall_mem_cons, forall_mem_singleton]
  rfl

/-- **With blanks between its tokens a declaration is a heading** with its name and its parameters. -/
theorem heading_of_blank {h : Header} (hblank : Blank h.slices) (rest : List Char) :
    ∃ found, heading? (['f', 'u', 'n', 'c'] ++ (joined h.slices ++ rest)) = some found ∧
      found.text = ['f', 'u', 'n', 'c'] ++ joined h.slices ∧ found.rest = rest ∧
      found.name = h.name.text ∧ parameterNames found.parameters = h.names := by
  obtain ⟨hname, hopens, hparameters, hcloses, hbrace⟩ := blank_slices.1 hblank
  have hlist := parameterList?_of_harmless
    ((h.listing.harmless hparameters).append (harmless_of_blank hcloses)) hbrace rest
  rw [append_assoc] at hlist
  refine ⟨⟨['f', 'u', 'n', 'c'] ++ h.name.gap, h.name.text, h.opens.gap ++ ['('],
    joined h.parameters ++ h.closes.gap, ')' :: (h.brace.gap ++ ['{']), rest⟩, ?_, ?_, rfl, rfl,
    h.listing.parameterNames hparameters hcloses⟩
  · refine heading?_eq_some_iff.2 ⟨h.name.gap, h.opens.gap, _, ⟨h.apart, hname⟩, h.isWord, hopens, rfl,
      rfl, hlist, ?_⟩
    rw [joined_slices]
    rfl
  · simp [Heading.text, slices, joined, h.text_opens, h.text_closes, h.text_brace]

theorem quiet {h : Header} (hblank : Blank h.slices) (rest : List Char) :
    Quiet (['u', 'n', 'c'] ++ joined h.slices) rest := by
  obtain ⟨hname, hopens, hparameters, hcloses, hbrace⟩ := blank_slices.1 hblank
  have hsymbol {c : Char} (hc : c ≠ 'f') {cs rest : List Char} (hcs : Quiet cs rest) :
      Quiet (c :: cs) rest :=
    quiet_cons.2 ⟨heading?_of_ne hc _, hcs⟩
  have hclose : Quiet (h.closes.gap ++ ')' :: (h.brace.gap ++ ['{'])) rest :=
    (quiet_of_blank hcloses _).append (hsymbol (by decide)
      ((quiet_of_blank hbrace _).append (hsymbol (by decide) (quiet_nil rest))))
  have hlist : Quiet (h.list []) rest := by
    refine Quiet.append ?_ hclose
    rw [append_assoc]
    exact h.listing.quiet hparameters hcloses _
  have hslices := joined_slices h []
  rw [append_nil] at hslices
  rw [hslices]
  refine hsymbol (by decide) (hsymbol (by decide) (hsymbol (by decide)
    ((quiet_of_blank hname _).append (Quiet.append ?_
      ((quiet_of_blank hopens _).append (hsymbol (by decide) hlist))))))
  rw [append_assoc]
  exact quiet_word h.isWord.2 hopens (by decide) (by decide) _

theorem blank_of_list {h : Header} {rest : List Char} {l : List Char × List Char × List Char}
    (hl : parameterList? (h.list rest) = some l) (hnames : parameterNames l.1 = h.names) :
    Blank h.parameters ∧ (∀ c ∈ h.closes.gap, isBlank c = true) ∧
      ∀ c ∈ h.brace.gap, isBlank c = true := by
  have hbeyond {before behind : List Char} {c : Char} (hbefore : Harmless before)
      (hc : c = '#' ∨ c = '/' ∨ c = ')' ∧ ending? behind = none) :
      h.list rest ≠ before ++ c :: behind := by
    intro hsplit
    rw [hsplit] at hl
    obtain ⟨name, hmem, d, hd, hdword⟩ := exists_parameterName_beyond hbefore hc hl
    rw [hnames] at hmem
    rw [h.listing.isWord name hmem d hd] at hdword
    cases hdword
  have hspoilt : ¬Spoilt (h.list rest) := by
    rintro ⟨before, c, behind, hsplit, hbefore, hc⟩
    exact hbeyond hbefore (hc.imp_right .inl) hsplit
  obtain hparameters | hcomment := h.listing.blank_or_spoilt
  · have hharmless := h.listing.harmless hparameters
    obtain hcloses | hcomment := Package.blank_or_spoilt h.gap_closes
    · refine ⟨hparameters, hcloses, h.gap_brace.resolve_right ?_⟩
      rintro ⟨bs, c, more, hgap, hbs, hc⟩
      have hhidden : ending? (bs ++ c :: (more ++ '{' :: rest)) = none := ending?_of_comment hbs hc
      refine hbeyond (hharmless.append (harmless_of_blank hcloses)) (.inr (.inr ⟨rfl, hhidden⟩)) ?_
      simp [list, hgap]
    · exact absurd ((hcomment.append _).behind hharmless) hspoilt
  · exact absurd (hcomment.append _) hspoilt

/-- **A heading with the parameters of the declaration is found only where there are blanks** between the
tokens. -/
theorem blank_of_heading {h : Header} {rest : List Char} {found : Heading}
    (hfound : heading? (['f', 'u', 'n', 'c'] ++ (joined h.slices ++ rest)) = some found)
    (hnames : parameterNames found.parameters = h.names) : Blank h.slices := by
  obtain ⟨gap, gap', tail, hgap, hname, hgap', -, -, hlist, heq⟩ := heading?_eq_some_iff.1 hfound
  rw [joined_slices] at heq
  have hword : ∀ c ∈ (found.name ++ (gap' ++ '(' :: tail)).head?,
      isBlank c = false ∧ c ≠ '#' ∧ c ≠ '/' := by
    obtain ⟨d, ds, hds⟩ := exists_cons_of_ne_nil hname.1
    rw [hds] at hname ⊢
    rintro c ⟨⟩
    have hd := hname.2 d mem_cons_self
    refine ⟨isBlank_of_isWordChar hd, ?_, ?_⟩ <;> rintro rfl <;> exact absurd hd (by decide)
  have hparen : isWordChar '(' = false ∧ isBlank '(' = false ∧ '(' ≠ '#' ∧ '(' ≠ '/' := by decide
  obtain ⟨hblank, heq⟩ := blank_of_append h.gap_name hgap.2 (stops_at_word h.isWord _) hword
    (append_cancel_left heq)
  obtain ⟨-, heq⟩ := append_inj_of_stop h.isWord.2 (stops_at_comment h.gap_opens hparen.1 _) hname.2
    (stops_at_gap hgap' hparen.1 _) heq
  obtain ⟨hblank', heq⟩ := blank_of_append h.gap_opens hgap' (by rintro c ⟨⟩; exact hparen.2.1)
    (by rintro c ⟨⟩; exact hparen.2) heq
  rw [← (cons.inj heq).2] at hlist
  exact blank_slices.2 ⟨hblank, hblank', blank_of_list hlist hnames⟩

end Header

end ScriptWorkbench.Package
