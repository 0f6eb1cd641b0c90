/-
Sources in slices, and the functions that they declare.

A slice is what stands before a token, the lexeme of the token, and what the token is. Where a slice begins in
the source is the length of all that is before it, and this is what a search over the text can be compared
with. The slices of a source that is read as a whole have an outline (`ReadsWhole.outline`): at each `func` a
name, a list of names in parentheses and an opening brace follow, and the functions are those of the program,
without its main blocks.
-/
import ScriptWorkbench.Proofs.Tiling
import ScriptWorkbench.Proofs.WholePrograms

namespace ScriptWorkbench

open List

namespace Token

variable {rest text : List Char} {c : Char} {w : Kind × String}

/-! ## Slices -/

/-- What stands before a token, its lexeme, and its kind and value. -/
structure Slice where
  gap : List Char
  text : List Char
  word : Kind × String

def Slice.kind (s : Slice) : Kind := s.word.1

def joined : List Slice → List Char
  | [] => []
  | s :: ss => s.gap ++ (s.text ++ joined ss)

/-- The slices are pieces of a text that is scanned. -/
inductive Sliced : List Slice → Prop where
  | nil : Sliced []
  | done {gap tail : List Char} : Loose gap → Unended tail → Sliced [⟨gap ++ tail, [], (.endOfInput, "")⟩]
  | token {gap glued text : List Char} {w : Kind × String} {ss : List Slice} :
      Loose gap → Glued glued → Lexeme text (joined ss) w → Sliced ss →
      Sliced (⟨gap ++ glued, text, w⟩ :: ss)

@[simp] theorem joined_append (ss ss' : List Slice) : joined (ss ++ ss') = joined ss ++ joined ss' := by
  induction ss with
  | nil => rfl
  | cons s ss ih => rw [cons_append, joined, joined, ih]; simp only [append_assoc]

theorem exists_sliced {cs : List Char} {ws : List (Kind × String)} (h : Tiles cs ws) :
    ∃ ss, Sliced ss ∧ joined ss = cs ∧ ss.map Slice.word = ws := by
  induction h with
  | done hgap htail =>
    exact ⟨_, .done hgap htail, by rw [joined, joined, append_nil, append_nil], rfl⟩
  | token hgap hglued htext _ _ ih =>
    obtain ⟨ss, hss, rfl, rfl⟩ := ih
    exact ⟨_, .token hgap hglued htext hss, by rw [joined, append_assoc], rfl⟩

theorem Sliced.tail {s : Slice} {ss : List Slice} (h : Sliced (s :: ss)) : Sliced ss := by
  cases h with
  | done => exact .nil
  | token _ _ _ hss => exact hss

theorem Sliced.drop {ss ss' : List Slice} (h : Sliced (ss ++ ss')) : Sliced ss' := by
  induction ss with
  | nil => exact h
  | cons s ss ih => exact ih h.tail

theorem Sliced.lexeme {s : Slice} {ss : List Slice} (h : Sliced (s :: ss))
    (hkind : s.kind ≠ .endOfInput) : Lexeme s.text (joined ss) s.word := by
  cases h with
  | done => exact absurd rfl hkind
  | token _ _ htext _ => exact htext

theorem isBlank_of_isGap (h : isGap c = true) : Text.isBlank c = true := by
  obtain ((rfl | rfl) | rfl) | rfl := eq_of_isGap h <;> decide

def BlankOrComment (gap : List Char) : Prop :=
  (∀ c ∈ gap, Text.isBlank c = true) ∨
    ∃ bs c more, gap = bs ++ c :: more ∧ (∀ b ∈ bs, Text.isBlank b = true) ∧ (c = '#' ∨ c = '/')

theorem blankOrComment_cons (hc : c = '#' ∨ c = '/') (more : List Char) :
    BlankOrComment (c :: more) :=
  .inr ⟨[], c, more, rfl, by simp, hc⟩

theorem head_of_mem_lineMarks {mark : List Char} (h : c :: mark ∈ lineMarks) :
    c = '#' ∨ c = '/' := by
  obtain heq | heq := mem_lineMarks.1 h
  · exact .inl (cons.inj heq).1
  · exact .inr (cons.inj heq).1

theorem Loose.blankOrComment {gap behind : List Char} (h : Loose gap) (hbehind : BlankOrComment behind) :
    BlankOrComment (gap ++ behind) := by
  induction h with
  | nothing => exact hbehind
  | @blank b cs hb _ ih =>
    have hb := isBlank_of_isGap hb
    obtain hall | ⟨bs, c, more, hsplit, hbs, hc⟩ := ih
    · exact .inl (forall_mem_cons.2 ⟨hb, hall⟩)
    · refine .inr ⟨b :: bs, c, more, ?_, forall_mem_cons.2 ⟨hb, hbs⟩, hc⟩
      rw [cons_append, hsplit]
      rfl
  | comment hmark _ _ _ => exact blankOrComment_cons (head_of_mem_lineMarks hmark) _

theorem Sliced.gap_cases {s : Slice} {ss : List Slice} (h : Sliced (s :: ss)) : BlankOrComment s.gap := by
  have hnothing : BlankOrComment [] := .inl (by simp)
  cases h with
  | done hgap htail =>
    refine hgap.blankOrComment ?_
    cases htail with
    | nothing => exact hnothing
    | comment hmark _ => exact blankOrComment_cons (head_of_mem_lineMarks hmark) _
  | token hgap hglued _ _ =>
    refine hgap.blankOrComment ?_
    cases hglued with
    | nothing => exact hnothing
    | comment => exact blankOrComment_cons (.inr rfl) _

/-! ## The lexemes of a heading -/

theorem eq_of_wordKind {word : String} {kind : Kind} (h : wordKind word = kind)
    (hkind : kind ≠ .identifier) : (word, kind) ∈ keywords := by
  rw [wordKind] at h
  cases hlookup : keywords.lookup word with
  | none =>
    rw [hlookup] at h
    exact absurd h.symm hkind
  | some kind' =>
    rw [hlookup] at h
    cases h
    exact mem_of_lookup hlookup

theorem Lexeme.symbol (h : Lexeme text rest w) (hc : (c, w.1) ∈ symbols) : text = [c] := by
  have hnone : ∀ x ∈ symbols, x.2 ∉ [Kind.identifier, .number, .text] := by decide
  cases h with
  | double hmem =>
    have hall : ∀ y ∈ doubleSymbols, ∀ x ∈ symbols, x.2 ≠ y.2 := by decide +kernel
    exact absurd rfl (hall _ hmem _ hc)
  | single hmem _ =>
    have hall : ∀ x ∈ symbols, ∀ y ∈ symbols, x.2 = y.2 → x.1 = y.1 := by decide +kernel
    exact congrArg (fun c => [c]) (hall _ hmem _ hc rfl)
  | word =>
    have hall : ∀ y ∈ keywords, ∀ x ∈ symbols, x.2 ≠ y.2 := by decide +kernel
    have hne := fun heq => hnone _ hc (mem_cons.2 (.inl heq))
    exact absurd rfl (hall _ (eq_of_wordKind rfl hne) _ hc)
  | whole | decimal | text => exact absurd (by simp) (hnone _ hc)

theorem isNameChar_of_startsWord (h : startsWord c = true) : isNameChar c = true := by
  rw [startsWord, Bool.or_eq_true] at h
  rw [isNameChar, Text.isAlphanumeric, Bool.or_eq_true, Bool.or_eq_true]
  exact h.imp .inl id

theorem Lexeme.identifier (h : Lexeme text rest w) (hw : w.1 = .identifier) :
    text ≠ [] ∧ (∀ c ∈ text, isNameChar c = true) ∧ w.2 = String.ofList text ∧
      wordKind w.2 = .identifier := by
  cases h with
  | double hmem =>
    have hall : ∀ x ∈ doubleSymbols, x.2 ≠ .identifier := by decide
    exact absurd hw (hall _ hmem)
  | single hmem _ =>
    have hall : ∀ x ∈ symbols, x.2 ≠ .identifier := by decide
    exact absurd hw (hall _ hmem)
  | @word c cs _ hc hcs _ =>
    exact ⟨cons_ne_nil c cs, forall_mem_cons.2 ⟨isNameChar_of_startsWord hc, hcs⟩, rfl, hw⟩
  | whole | decimal | text => cases hw

theorem Lexeme.funcWord (h : Lexeme text rest w) (hw : w.1 = .funcWord) :
    text = ['f', 'u', 'n', 'c'] ∧ StopsAt isNameChar rest := by
  cases h with
  | double hmem =>
    have hall : ∀ x ∈ doubleSymbols, x.2 ≠ .funcWord := by decide
    exact absurd hw (hall _ hmem)
  | single hmem _ =>
    have hall : ∀ x ∈ symbols, x.2 ≠ .funcWord := by decide
    exact absurd hw (hall _ hmem)
  | word _ _ hstop =>
    have hall : ∀ x ∈ keywords, x.2 = .funcWord → x.1.toList = ['f', 'u', 'n', 'c'] := by decide +kernel
    have htext := hall _ (eq_of_wordKind hw (by decide)) rfl
    rw [String.toList_ofList] at htext
    exact ⟨htext, hstop⟩
  | whole | decimal | text => cases hw

end Token

namespace Grammar

open Ast

variable {us : List Token}

/-! ## Outlines -/

/-- The functions that a program declares with their parameters: all of its functions but the main
blocks. -/
def declared (p : Program) : List (String × List String) :=
  (p.functions.filter (·.name ≠ "main")).map fun f => (f.name, f.parameters)

/-- **The outline of tokens:** the headings that follow each `func`. -/
inductive Outline : List (String × List String) → List Token → Prop where
  | nothing : Outline [] []
  | other {ds : List (String × List String)} {t : Token} {us : List Token} :
      t.kind ≠ .funcWord → Outline ds us → Outline ds (t :: us)
  | function {ds : List (String × List String)} {ns : List String} {t name l r b : Token}
      {us vs : List Token} :
      t.kind = .funcWord → name.kind = .identifier → l.kind = .leftParen → Parameters ns us →
      r.kind = .rightParen → b.kind = .leftBrace → Outline ds vs →
      Outline ((name.value, ns) :: ds) (t :: name :: l :: (us ++ r :: b :: vs))

theorem Outline.behind {ds : List (String × List String)} {vs : List Token}
    (h : ∀ t ∈ us, t.kind ≠ .funcWord) (hvs : Outline ds vs) : Outline ds (us ++ vs) := by
  induction us with
  | nil => exact hvs
  | cons t us ih =>
    rw [forall_mem_cons] at h
    exact .other h.1 (ih h.2)

theorem Derives.kind_ne_func {ph : Phrase} (h : Derives ph us) :
    ∀ t ∈ us, t.kind ≠ .funcWord := by
  refine h.kind_ne ?_
  rintro (⟨h | h⟩ | h) <;> cases h

theorem Source.kind_ne_func {e : Expr} (h : Source e us) :
    ∀ t ∈ us, t.kind ≠ .funcWord := by
  cases h with
  | value he => exact he.kind_ne_func
  | range hf ht hl =>
    exact forall_mem_append.2 ⟨hf.kind_ne_func, forall_mem_cons.2
      ⟨by rw [ht]; decide, hl.kind_ne_func⟩⟩

theorem Forms.kind_ne_func {part : Part} (h : Forms part us) :
    ∀ t ∈ us, t.kind ≠ .funcWord := by
  induction h with
  | letVar ht hn hq he hs | assign hn hq he hs | returnValue ht he hs | cond ht he _ _ ihb iho
  | forEach ht hn hi he _ ihb | loop ht he _ ihb | expr he hs => have := he.kind_ne_func; grind
  | guarded ht _ hu hc _ ihb ihh => cases hc <;> grind
  | _ => grind

theorem Parent.kind_ne_func {parent : Option String} (h : Parent parent us) :
    ∀ t ∈ us, t.kind ≠ .funcWord := by
  cases h <;> grind

theorem Makes.outline {item : Item} {vs : List Token} (h : Makes item us) {p : Program}
    (hnames : ∀ t ∈ us, t.kind = .identifier → t.value ≠ "main") (hvs : Outline (declared p) vs) :
    Outline (declared (item.addTo p)) (us ++ vs) := by
  cases h with
  | @function ns ss t name l r us body ht hn hl hus hr hbody =>
    have hname : name.value ≠ "main" := hnames name (by simp) hn
    have hdeclared : declared (Item.addTo p (.function ⟨name.value, ns, .block ss⟩)) =
        (name.value, ns) :: declared p := by
      simp [declared, Item.addTo, hname]
    cases hbody with
    | @block _ b rest hb hrest =>
      rw [hdeclared]
      have houtline := Outline.function ht hn hl hus hr hb (hvs.behind hrest.kind_ne_func)
      simpa using houtline
  | mainBlock ht hbody => exact .other (by rw [ht]; decide) (hvs.behind hbody.kind_ne_func)
  | declaration ht hn hp hbody =>
    refine hvs.behind (forall_mem_cons.2 ⟨by rw [ht]; decide, forall_mem_cons.2
      ⟨by rw [hn]; decide, forall_mem_append.2 ⟨hp.kind_ne_func, hbody.kind_ne_func⟩⟩⟩)
  | statement hs => exact hvs.behind hs.kind_ne_func

theorem Piece.outline (pieces : List Piece) {eof : Token} (heof : eof.kind = .endOfInput)
    (hnames : ∀ t ∈ Piece.join pieces, t.kind = .identifier → t.value ≠ "main") :
    Outline (declared (Piece.program pieces)) (Piece.join pieces ++ [eof]) := by
  induction pieces with
  | nil => exact .other (by rw [heof]; decide) .nothing
  | cons piece pieces ih =>
    have hjoin : Piece.join (piece :: pieces) = piece.tokens ++ Piece.join pieces := rfl
    rw [hjoin, forall_mem_append] at hnames
    rw [hjoin, append_assoc]
    exact piece.makes.outline hnames.1 (ih hnames.2)

end Grammar

/-! ## The slices of a source -/

theorem Token.Sliced.ne_main {ss : List Token.Slice} (h : Token.Sliced ss) :
    ∀ s ∈ ss, s.kind = .identifier → s.word.2 ≠ "main" := by
  induction h with
  | nil => exact fun s hs => absurd hs not_mem_nil
  | done => exact forall_mem_singleton.2 fun hkind => by cases hkind
  | token _ _ htext _ ih =>
    refine forall_mem_cons.2 ⟨fun hkind hmain => ?_, ih⟩
    have hword := (htext.identifier hkind).2.2.2
    rw [hmain] at hword
    exact absurd hword (by decide)

/-- Slices of a source: pieces that make it up, one for each of its tokens. -/
structure Token.Slices (source : String) (ss : List Token.Slice) : Prop where
  sliced : Token.Sliced ss
  text : Token.joined ss = source.toList
  words : ∃ ts, Token.scan source = .ok ts ∧ ss.map Token.Slice.word = ts.map Token.content

theorem ReadsWhole.exists_slices {source : String} {p : Program} (h : ReadsWhole source p) :
    ∃ ss, Token.Slices source ss := by
  obtain ⟨pieces, eof, hscan, -, -⟩ := h.exists_pieces
  obtain ⟨ss, hss, htext, hwords⟩ := Token.exists_sliced (Token.tiles_of_scanFrom hscan)
  exact ⟨ss, hss, htext, _, hscan, hwords⟩

/-- **The slices of a source that is read as a whole** have the outline of its program. -/
theorem ReadsWhole.outline {source : String} {p : Program} (h : ReadsWhole source p)
    {ss : List Token.Slice} (hss : Token.Slices source ss) :
    ∃ ts, ss.map Token.Slice.word = ts.map Token.content ∧ Grammar.Outline (Grammar.declared p) ts := by
  obtain ⟨pieces, eof, hscan, heof, rfl⟩ := h.exists_pieces
  obtain ⟨ts, hts, hwords⟩ := hss.words
  cases hscan.symm.trans hts
  refine ⟨_, hwords, Grammar.Piece.outline pieces heof fun t ht hkind => ?_⟩
  have hmem : t.content ∈ ss.map Token.Slice.word := by
    rw [hwords]
    exact mem_map_of_mem (mem_append_left _ ht)
  obtain ⟨s, hs, hword⟩ := mem_map.1 hmem
  have hne := hss.sliced.ne_main s hs
  rw [Token.Slice.kind, hword] at hne
  exact hne hkind

end ScriptWorkbench
