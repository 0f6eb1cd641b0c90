/-
Texts of the reference grammar, as the scanner takes them.

The scanner knows more words than the reference grammar, and fewer texts between quotes; it takes a point
behind digits into the number, and it ends a comment with a line feed only. **Where a text stays clear of
these** (`Supported`), **the scanner cuts it as the lexical rules do** (`tiles_of_lexed`). A comment that a
carriage return ends for the rules goes on for the scanner up to the next line feed, and the induction over
the pieces carries such an open comment along.
-/
import ScriptWorkbench.Proofs.ReferenceGrammar
import ScriptWorkbench.Proofs.Tiling

namespace ScriptWorkbench.Reference

open Token List

variable {cs ds text : List Char} {p : Piece} {ps : List Piece} {kind : Kind} {r : Rule} {c : Char}

/-! ## Texts that the scanner takes alike -/

def reserved : List String := ["try", "catch", "import", "while", "class", "this", "extends"]

def escapesKnown : List Char → Bool
  | [] => true
  | '\\' :: cs =>
    match cs with
    | [] => true
    | e :: cs => (unescape? e).isSome && escapesKnown cs
  | _ :: cs => escapesKnown cs

def BreaksLine : List Piece → Prop
  | [] => True
  | p :: ps => p.rule.kind? = none ∧ ('\n' ∈ p.text ∨ BreaksLine ps)

/-- The language has the piece before the others: a name is not reserved, a string literal has known
escapes only, a whole number is not too long and no point touches it, and the line of a comment ends. -/
def Piece.Supported (p : Piece) (rest : List Piece) : Prop :=
  match p.rule with
  | .fixed .. | .blanks => True
  | .name => String.ofList p.text ∉ reserved
  | .text => escapesKnown p.text = true
  | .number => '.' ∉ p.text → p.text.length ≤ Number.maxDigits ∧ ∀ q ∈ rest.head?, q.text ≠ ['.']
  | .comment => BreaksLine rest

def Supported : List Piece → Prop
  | [] => True
  | p :: ps => p.Supported ps ∧ Supported ps

instance decidableBreaksLine : (ps : List Piece) → Decidable (BreaksLine ps)
  | [] => inferInstanceAs (Decidable True)
  | p :: ps =>
    have := decidableBreaksLine ps
    inferInstanceAs (Decidable (p.rule.kind? = none ∧ ('\n' ∈ p.text ∨ BreaksLine ps)))

instance Piece.decidableSupported (rest : List Piece) : (p : Piece) → Decidable (p.Supported rest)
  | ⟨.fixed .., _⟩ => inferInstanceAs (Decidable True)
  | ⟨.blanks, _⟩ => inferInstanceAs (Decidable True)
  | ⟨.name, text⟩ => inferInstanceAs (Decidable (String.ofList text ∉ reserved))
  | ⟨.text, text⟩ => inferInstanceAs (Decidable (escapesKnown text = true))
  | ⟨.number, text⟩ => inferInstanceAs (Decidable
      ('.' ∉ text → text.length ≤ Number.maxDigits ∧ ∀ q ∈ rest.head?, q.text ≠ ['.']))
  | ⟨.comment, _⟩ => inferInstanceAs (Decidable (BreaksLine rest))

instance decidableSupported : (ps : List Piece) → Decidable (Supported ps)
  | [] => inferInstanceAs (Decidable True)
  | p :: ps =>
    have := decidableSupported ps
    inferInstanceAs (Decidable (p.Supported ps ∧ Supported ps))

def meaning (w : Word) : Kind × String :=
  (w.1, String.ofList (if w.1 = .text then spelled w.2.tail.dropLast else w.2))

/-! ## Characters -/

theorem classes_of_ascii (h : c.toNat < 128) :
    isNameChar c = (c.isAlphanum || c == '_') ∧ startsWord c = (c.isAlpha || c == '_') ∧
      Text.isDigit c = c.isDigit := by
  have hall : ∀ n < 128, isNameChar (Char.ofNat n) = ((Char.ofNat n).isAlphanum || Char.ofNat n == '_') ∧
      startsWord (Char.ofNat n) = ((Char.ofNat n).isAlpha || Char.ofNat n == '_') ∧
      Text.isDigit (Char.ofNat n) = (Char.ofNat n).isDigit := by
    decide +kernel
  have hn := hall c.toNat h
  rwa [Char.ofNat_toNat] at hn

theorem ascii_of_isDigit (h : c.isDigit = true) : c.toNat < 128 :=
  Nat.lt_of_le_of_lt (Char.isDigit_iff_toNat.1 h).2 (by decide)

theorem ascii_of_isAlphanum (h : (c.isAlphanum || c == '_') = true) : c.toNat < 128 := by
  rw [Bool.or_eq_true, beq_iff_eq] at h
  obtain h | rfl := h
  · delta Char.isAlphanum Char.isAlpha Char.isUpper Char.isLower at h
    simp only [Bool.or_eq_true, Bool.and_eq_true, decide_eq_true_eq, UInt32.le_iff_toNat_le] at h
    obtain (⟨-, h⟩ | ⟨-, h⟩) | h := h
    · exact Nat.lt_of_le_of_lt h (by decide)
    · exact Nat.lt_of_le_of_lt h (by decide)
    · exact ascii_of_isDigit h
  · decide

theorem isAlphanum_of_isAlpha (h : (c.isAlpha || c == '_') = true) :
    (c.isAlphanum || c == '_') = true := by
  rw [Bool.or_eq_true] at h ⊢
  exact h.imp_left fun halpha => by rw [Char.isAlphanum, halpha, Bool.true_or]

/-! ## Pieces -/

theorem mem_rules_fixed {spelling : String} :
    Rule.fixed kind spelling ∈ rules [] ↔ (kind, spelling) ∈ fixedWords [] := by
  simp [rules]

theorem isNumeral_whole (h : ∀ d ∈ c :: ds, d.isDigit = true) :
    isNumeral (c :: ds) = true := by
  have hstop := @takeWhile_append_of_stop _ _ [] h (by rintro _ ⟨⟩)
  rw [append_nil] at hstop
  rw [isNumeral, hstop.1, hstop.2]
  rfl

theorem isNumeral_decimal {es : List Char} (h : ∀ d ∈ c :: ds, d.isDigit = true) (hne : es ≠ [])
    (hes : ∀ d ∈ es, d.isDigit = true) : isNumeral (c :: ds ++ '.' :: es) = true := by
  have hstop := @takeWhile_append_of_stop _ _ ('.' :: es) h (by rintro _ ⟨⟩; rfl)
  rw [isNumeral, hstop.1, hstop.2]
  simpa [hne] using hes

theorem isNumeral_cases (h : isNumeral cs = true) :
    ∃ c ds, (∀ d ∈ c :: ds, d.isDigit = true) ∧
      (cs = c :: ds ∨ ∃ es, es ≠ [] ∧ (∀ d ∈ es, d.isDigit = true) ∧ cs = c :: ds ++ '.' :: es) := by
  rw [isNumeral, Bool.and_eq_true] at h
  obtain ⟨hdigits, hrest⟩ := h
  have hcs := (takeWhile_append_dropWhile (p := Char.isDigit) (l := cs)).symm
  have hall := all_eq_true.1 (all_takeWhile (p := Char.isDigit) (l := cs))
  generalize cs.takeWhile Char.isDigit = whole at hdigits hcs hall
  generalize cs.dropWhile Char.isDigit = rest at hrest hcs
  cases whole with
  | nil => cases hdigits
  | cons c ds =>
    refine ⟨c, ds, hall, ?_⟩
    cases rest with
    | nil => exact .inl (by rw [hcs, append_nil])
    | cons e es =>
      simp only [Bool.and_eq_true, beq_iff_eq, Bool.not_eq_true', isEmpty_eq_false_iff, all_eq_true] at hrest
      obtain ⟨⟨rfl, hne⟩, hes⟩ := hrest
      exact .inr ⟨es, hne, hes, hcs⟩

theorem fits_head (hr : r ∈ rules []) (h : r.fits text = true) :
    ∃ c cs, text = c :: cs ∧ c.toNat < 128 := by
  have hfirst {c : Char} (hc : c.toNat < 128) (h : text.head? = some c) :
      ∃ c cs, text = c :: cs ∧ c.toNat < 128 := by
    obtain ⟨cs, hcs⟩ := head?_eq_some_iff.1 h
    exact ⟨c, cs, hcs, hc⟩
  cases r with
  | fixed kind spelling =>
    have hall : (fixedWords []).all
        (fun w => w.2.toList.head?.any fun c => c.toNat < 128) = true := by decide +kernel
    obtain ⟨c, hc, hascii⟩ := (Option.any_eq_true _ _).1 (all_eq_true.1 hall _ (mem_rules_fixed.1 hr))
    rw [Rule.fits, beq_iff_eq] at h
    exact hfirst (of_decide_eq_true hascii) (h ▸ hc)
  | number =>
    obtain ⟨c, ds, hds, rfl | ⟨es, -, -, rfl⟩⟩ := isNumeral_cases h
    · exact ⟨c, ds, rfl, ascii_of_isDigit (hds c mem_cons_self)⟩
    · exact ⟨c, ds ++ '.' :: es, rfl, ascii_of_isDigit (hds c mem_cons_self)⟩
  | text | comment =>
    rw [Rule.fits, Bool.and_eq_true, beq_iff_eq] at h
    exact hfirst (by decide) h.1
  | name =>
    cases text with
    | nil => cases h
    | cons c cs =>
      rw [Rule.fits, isName, Bool.and_eq_true] at h
      exact ⟨c, cs, rfl, ascii_of_isAlphanum (isAlphanum_of_isAlpha h.1)⟩
  | blanks =>
    cases text with
    | nil => cases h
    | cons c cs =>
      rw [Rule.fits, Bool.and_eq_true, all_cons, Bool.and_eq_true] at h
      have hgap := h.2.1
      simp only [isGap, Bool.or_eq_true, beq_iff_eq] at hgap
      obtain ((rfl | rfl) | rfl) | rfl := hgap <;> exact ⟨_, cs, rfl, by decide⟩

theorem Lexed.ascii_head (h : Lexed [] ps) :
    ∀ c ∈ (joined ps).head?, c.toNat < 128 := by
  cases ps with
  | nil => rintro c ⟨⟩
  | cons p ps =>
    obtain ⟨⟨hr, hfits, -⟩, -⟩ := h
    obtain ⟨c, cs, hcs, hc⟩ := fits_head hr hfits
    rw [joined, hcs]
    rintro d ⟨⟩
    exact hc

theorem Makes.not_fits {rest : List Char} (h : Makes [] r text rest) {d : Char}
    (hd : d ∈ rest.head?) {s : Rule} (hs : s ∈ rules []) : s.fits (text ++ [d]) = false := by
  obtain ⟨more, rfl⟩ := head?_eq_some_iff.1 hd
  exact h.2.2.1 0 (Nat.zero_lt_succ _) s hs

/-! ## Words -/

theorem stopsAt_of_isName (hmakes : Makes [] r text (joined ps)) (hps : Lexed [] ps)
    (hname : isName text = true) :
    StopsAt isNameChar (joined ps) := by
  intro d hd
  have hlonger : isName (text ++ [d]) = false := hmakes.not_fits hd (s := .name) (by decide)
  rw [(classes_of_ascii (hps.ascii_head d hd)).1, ← Bool.not_eq_true]
  intro halnum
  cases text with
  | nil => cases hname
  | cons c cs =>
    rw [isName, Bool.and_eq_true] at hname
    rw [cons_append, isName, hname.1, all_append, hname.2, all_cons, halnum] at hlonger
    cases hlonger

theorem lexeme_of_isName (hmakes : Makes [] r text (joined ps)) (hps : Lexed [] ps)
    (hname : isName text = true) :
    Lexeme text (joined ps) (wordKind (String.ofList text), String.ofList text) := by
  have hstop := stopsAt_of_isName hmakes hps hname
  cases text with
  | nil => cases hname
  | cons c cs =>
    rw [isName, Bool.and_eq_true, all_eq_true] at hname
    obtain ⟨hc, hcs⟩ := hname
    refine .word ?_ (fun d hd => ?_) hstop
    · rwa [(classes_of_ascii (ascii_of_isAlphanum (isAlphanum_of_isAlpha hc))).2.1]
    · have hd := hcs d hd
      rwa [(classes_of_ascii (ascii_of_isAlphanum hd)).1]

theorem lexeme_of_fixed {spelling : String}
    (hmakes : Makes [] (.fixed kind spelling) spelling.toList (joined ps)) (hps : Lexed [] ps) :
    Lexeme spelling.toList (joined ps) (kind, spelling) := by
  -- the words of the grammar are keywords, symbols of two characters and symbols of one
  have hsorts : ∀ w ∈ fixedWords [],
      isName w.2.toList = true ∧ wordKind w.2 = w.1 ∨
        (∃ x ∈ doubleSymbols, w.2.toList = [x.1.1, x.1.2] ∧ x.2 = w.1) ∨
        ∃ x ∈ symbols, w.2.toList = [x.1] ∧ x.2 = w.1 := by
    decide +kernel
  have hlonger : ∀ x ∈ doubleSymbols, Rule.fixed x.2 (String.ofList [x.1.1, x.1.2]) ∈ rules [] := by
    decide +kernel
  obtain ⟨hname, hkind⟩ | ⟨⟨⟨c, d⟩, _⟩, hx, hspelling, rfl⟩ | ⟨⟨c, symbol⟩, hx, hspelling, rfl⟩ :=
    hsorts _ (mem_rules_fixed.1 hmakes.1)
  · have hword := lexeme_of_isName hmakes hps hname
    rwa [String.ofList_toList, hkind] at hword
  · have hdouble : Lexeme [c, d] (joined ps) _ := .double hx
    rwa [← hspelling, String.ofList_toList] at hdouble
  · have hsingle : Lexeme [c] (joined ps) (symbol, String.ofList [c]) := by
      refine .single hx fun d hd kind' hmem => ?_
      have hfits := hmakes.not_fits hd (hlonger _ hmem)
      rw [hspelling, Rule.fits, String.toList_ofList, beq_eq_false_iff_ne] at hfits
      exact hfits rfl
    rwa [← hspelling, String.ofList_toList] at hsingle

theorem lexeme_of_name (hmakes : Makes [] .name text (joined ps)) (hps : Lexed [] ps)
    (hreserved : String.ofList text ∉ reserved) :
    Lexeme text (joined ps) (.identifier, String.ofList text) := by
  have hword := lexeme_of_isName hmakes hps hmakes.2.1
  -- a keyword is reserved, or an earlier rule would have made the piece
  have hkeywords : ∀ x ∈ keywords,
      x.1 ∈ reserved ∨ Rule.fixed x.2 x.1 ∈ (rules []).takeWhile (· != .name) := by
    decide +kernel
  have hkind : wordKind (String.ofList text) = .identifier := by
    rw [wordKind]
    cases hlookup : keywords.lookup (String.ofList text) with
    | none => rfl
    | some kind =>
      obtain hmem | hearlier := hkeywords _ (mem_of_lookup hlookup)
      · exact absurd hmem hreserved
      · have hfits := hmakes.2.2.2 _ hearlier
        rw [Rule.fits, String.toList_ofList, beq_eq_false_iff_ne] at hfits
        exact absurd rfl hfits
  rwa [hkind] at hword

theorem allDigits_of_isDigit (h : ∀ d ∈ ds, d.isDigit = true) : AllDigits ds := by
  intro d hd
  rw [(classes_of_ascii (ascii_of_isDigit (h d hd))).2.2]
  exact h d hd

theorem fixed_of_fits (hc : c ∈ ['.', '*', '/']) (hr : r ∈ rules []) (h : r.fits (c :: cs) = true) :
    ∃ w ∈ fixedWords [], r = .fixed w.1 w.2 ∧ w.2.toList = c :: cs := by
  simp only [mem_cons, not_mem_nil, or_false] at hc
  cases r with
  | fixed kind spelling => exact ⟨_, mem_rules_fixed.1 hr, rfl, (beq_iff_eq.1 h).symm⟩
  | number | text | name | comment | blanks => obtain rfl | rfl | rfl := hc <;> cases h

theorem point_of_lexed (hps : Lexed [] ps) {more : List Char} (hmore : joined ps = '.' :: more)
    (hpoint : ∀ q ∈ ps.head?, q.text ≠ ['.']) :
    more.head? = some '.' := by
  cases ps with
  | nil => cases hmore
  | cons q qs =>
    obtain ⟨⟨hr, hfits, -⟩, -⟩ := hps
    have hne := hpoint q rfl
    obtain ⟨c, cs, hcs, -⟩ := fits_head hr hfits
    rw [joined, hcs] at hmore
    obtain ⟨rfl, rfl⟩ := cons.inj hmore
    rw [hcs] at hfits hne
    have hall : ∀ w ∈ fixedWords [], w.2.toList.head? = some '.' →
        w.2.toList = ['.'] ∨ w.2.toList = ['.', '.'] := by
      decide +kernel
    obtain ⟨w, hw, -, htext⟩ := fixed_of_fits (by decide) hr hfits
    obtain hone | htwo := hall w hw (by rw [htext]; rfl)
    · exact absurd (htext.symm.trans hone) hne
    · obtain rfl := (cons.inj (htext.symm.trans htwo)).2
      rfl

theorem lexeme_of_number (hmakes : Makes [] .number text (joined ps)) (hps : Lexed [] ps)
    (hpoint : '.' ∉ text → ∀ q ∈ ps.head?, q.text ≠ ['.']) :
    Lexeme text (joined ps) (.number, String.ofList text) := by
  have hnext {d : Char} (hd : d ∈ (joined ps).head?) : isNumeral (text ++ [d]) = false :=
    hmakes.not_fits hd (s := .number) (by decide)
  have hdigit {d : Char} (hd : d ∈ (joined ps).head?) : Text.isDigit d = d.isDigit :=
    (classes_of_ascii (hps.ascii_head d hd)).2.2
  have hsnoc {ds : List Char} {d : Char} (hds : ∀ c ∈ ds, c.isDigit = true) (hd : d.isDigit = true) :
      ∀ c ∈ ds ++ [d], c.isDigit = true :=
    forall_mem_append.2 ⟨hds, forall_mem_singleton.2 hd⟩
  obtain ⟨c, ds, hds, rfl | ⟨es, hne, hes, rfl⟩⟩ := isNumeral_cases hmakes.2.1
  · refine .whole (allDigits_of_isDigit hds) (fun d hd => ?_) fun more hmore => ?_
    · rw [hdigit hd, ← Bool.not_eq_true]
      intro hd'
      have hlonger : isNumeral (c :: (ds ++ [d])) = true := isNumeral_whole (hsnoc hds hd')
      exact Bool.false_ne_true ((hnext hd).symm.trans hlonger)
    · refine point_of_lexed hps hmore (hpoint fun hmem => ?_)
      exact absurd (hds '.' hmem) (by decide)
  · refine .decimal (allDigits_of_isDigit hds) (allDigits_of_isDigit hes) (fun d hd => ?_) ?_
    · rw [hdigit hd, ← Bool.not_eq_true]
      intro hd'
      have hlonger := isNumeral_decimal hds (append_ne_nil_of_left_ne_nil hne [d]) (hsnoc hes hd')
      rw [← cons_append, ← append_assoc] at hlonger
      exact Bool.false_ne_true ((hnext hd).symm.trans hlonger)
    · obtain ⟨e, es, rfl⟩ := exists_cons_of_ne_nil hne
      rintro ⟨⟩
      exact absurd (hes '.' mem_cons_self) (by decide)

theorem spells_of_closesText (hcloses : closesText cs = true) (hknown : escapesKnown cs = true) :
    ∃ body, cs = body ++ ['"'] ∧ Spells body (spelled body) := by
  fun_induction closesText cs with
  | case1 | case2 => cases hcloses
  | case3 e cs ih =>
    rw [escapesKnown, Bool.and_eq_true, Option.isSome_iff_exists] at hknown
    obtain ⟨⟨c, hc⟩, hknown⟩ := hknown
    obtain ⟨body, rfl, hbody⟩ := ih hcloses hknown
    refine ⟨'\\' :: e :: body, rfl, ?_⟩
    rw [spelled, hc]
    exact .escaped hc hbody
  | case4 cs _ =>
    rw [List.isEmpty_iff] at hcloses
    exact ⟨[], by rw [hcloses]; rfl, .nothing⟩
  | case5 c cs hslash hquote ih =>
    rw [escapesKnown] at hknown
    · obtain ⟨body, rfl, hbody⟩ := ih hcloses hknown
      refine ⟨c :: body, rfl, ?_⟩
      rw [spelled]
      · exact .plain hquote hslash hbody
      · exact hslash
    · exact hslash

theorem lexeme_of_text {rest : List Char} (hfits : Rule.text.fits text = true)
    (hknown : escapesKnown text = true) : Lexeme text rest (meaning (.text, text)) := by
  rw [Rule.fits, Bool.and_eq_true, beq_iff_eq] at hfits
  obtain ⟨hquote, hcloses⟩ := hfits
  obtain ⟨cs, rfl⟩ := head?_eq_some_iff.1 hquote
  obtain ⟨body, rfl, hbody⟩ := spells_of_closesText hcloses hknown
  rw [meaning, tail_cons, dropLast_concat]
  exact .text hbody

/-- **A piece that is a word is a lexeme,** and the token says what the word stands for. -/
theorem lexeme_of_makes (hmakes : Makes [] p.rule p.text (joined ps)) (hps : Lexed [] ps)
    (hkind : p.rule.kind? = some kind) (hsupported : p.Supported ps) :
    Lexeme p.text (joined ps) (meaning (kind, p.text)) := by
  obtain ⟨r, text⟩ := p
  cases r with
  | fixed kind' spelling =>
    obtain rfl : kind' = kind := Option.some.inj hkind
    have htext : text = spelling.toList := beq_iff_eq.1 hmakes.2.1
    have hne : kind' ≠ .text := by
      have hall : ∀ w ∈ fixedWords [], w.1 ≠ .text := by decide +kernel
      exact hall _ (mem_rules_fixed.1 hmakes.1)
    subst htext
    rw [meaning, if_neg hne, String.ofList_toList]
    exact lexeme_of_fixed hmakes hps
  | number =>
    cases hkind
    exact lexeme_of_number hmakes hps fun hwhole => (hsupported hwhole).2
  | text =>
    cases hkind
    exact lexeme_of_text hmakes.2.1 hsupported
  | name =>
    cases hkind
    exact lexeme_of_name hmakes hps hsupported
  | comment | blanks => cases hkind

/-! ## Whole texts -/

def tokenContents (ps : List Piece) : List (Kind × String) := (words ps).map meaning ++ [(.endOfInput, "")]

theorem words_cons_of_skipped (h : p.rule.kind? = none) (ps : List Piece) :
    words (p :: ps) = words ps := by
  rw [words, filterMap_cons_none (by rw [h]; rfl)]
  rfl

theorem words_cons_of_word (h : p.rule.kind? = some kind) (ps : List Piece) :
    words (p :: ps) = (kind, p.text) :: words ps := by
  rw [words, filterMap_cons_some (by rw [h]; rfl)]
  rfl

theorem head?_ne_of_followsSlash (hps : Lexed [] ps) (h : FollowsSlash (words ps)) :
    (joined ps).head? ≠ some '*' ∧ (joined ps).head? ≠ some '/' := by
  suffices hall : ∀ c ∈ ['*', '/'], (joined ps).head? ≠ some c from
    ⟨hall '*' (by decide), hall '/' (by decide)⟩
  intro c hc hhead
  cases ps with
  | nil => cases hhead
  | cons q qs =>
    obtain ⟨⟨hr, hfits, -⟩, -⟩ := hps
    obtain ⟨d, cs, hcs, -⟩ := fits_head hr hfits
    rw [joined, hcs] at hhead
    obtain rfl : d = c := Option.some.inj hhead
    rw [hcs] at hfits
    -- such a piece is a word, and it is the one of a division or of a multiplication
    have hkinds : ∀ w ∈ fixedWords [], w.2.toList.head? = some '*' ∨ w.2.toList.head? = some '/' →
        w.1 = .star ∨ w.1 = .slash := by
      decide +kernel
    obtain ⟨w, hw, hrule, htext⟩ := fixed_of_fits (mem_cons_of_mem '.' hc) hr hfits
    have hkind : w.1 = .star ∨ w.1 = .slash := by
      refine hkinds w hw ?_
      rw [htext]
      simpa using hc
    rw [words_cons_of_word (by rw [hrule]; rfl)] at h
    obtain ⟨x, hx, hslash, hstar⟩ := h
    obtain rfl := Option.some.inj hx
    exact hkind.elim hstar hslash

theorem loose_of_gaps {gaps : List Char} (h : ∀ c ∈ gaps, isGap c = true) : Loose gaps := by
  induction gaps with
  | nil => exact .nothing
  | cons c gaps ih =>
    obtain ⟨hc, hgaps⟩ := forall_mem_cons.1 h
    exact .blank hc (ih hgaps)

theorem not_mem_of_comment (h : Rule.comment.fits cs = true) :
    ∃ body, cs = '#' :: body ∧ '\n' ∉ body := by
  rw [Rule.fits, Bool.and_eq_true, beq_iff_eq] at h
  obtain ⟨body, rfl⟩ := head?_eq_some_iff.1 h.1
  refine ⟨body, rfl, fun hmem => ?_⟩
  have hfeed := all_eq_true.1 h.2 '\n' hmem
  cases hfeed

theorem tiles_open_comment {body : List Char} {ws : List (Kind × String)} (hbody : '\n' ∉ body)
    (hfeed : '\n' ∈ text → ∀ c ∈ text, isGap c = true) (hclosed : Tiles cs ws)
    (hopen : '\n' ∉ text → ∀ body, '\n' ∉ body → Tiles ('#' :: (body ++ cs)) ws) :
    Tiles ('#' :: (body ++ (text ++ cs))) ws := by
  by_cases hmem : '\n' ∈ text
  · obtain ⟨before, behind, htext, hbefore⟩ := eq_append_cons_of_mem hmem
    have hgaps : ∀ c ∈ behind, isGap c = true := by
      intro c hc
      refine hfeed hmem c ?_
      rw [htext]
      exact mem_append_right before (mem_cons_of_mem _ hc)
    have hcomment : Loose ('#' :: ((body ++ before) ++ '\n' :: behind)) := by
      refine @Loose.comment '#' [] _ _ (by decide) ?_ (loose_of_gaps hgaps)
      rw [mem_append, not_or]
      exact ⟨hbody, hbefore⟩
    have htiles := hclosed.behind hcomment
    rw [htext]
    simpa using htiles
  · have htiles := hopen hmem (body ++ text) (by rw [mem_append, not_or]; exact ⟨hbody, hmem⟩)
    rwa [append_assoc] at htiles

/-- **A text is scanned as the lexical rules cut it.** So is one that an open comment stands before, if
its line breaks before the next word. -/
theorem tiles_of_lexed (hlexed : Lexed [] ps) (hsupported : Supported ps)
    (hslashes : SlashesApart (words ps)) :
    Tiles (joined ps) (tokenContents ps) ∧
      (BreaksLine ps → ∀ body, '\n' ∉ body → Tiles ('#' :: (body ++ joined ps)) (tokenContents ps)) := by
  induction ps with
  | nil =>
    refine ⟨.done .nothing .nothing, fun _ body hbody => ?_⟩
    rw [joined, append_nil]
    exact .done .nothing (@Unended.comment '#' [] _ (by decide) hbody)
  | cons p ps ih =>
    obtain ⟨hmakes, hps⟩ := hlexed
    obtain ⟨hp, hsupported⟩ := hsupported
    cases hkind : p.rule.kind? with
    | some kind =>
      rw [words_cons_of_word hkind] at hslashes
      have hrest := (ih hps hsupported hslashes.2).1
      have hlexeme := lexeme_of_makes hmakes hps hkind hp
      refine ⟨?_, fun hbreaks => ?_⟩
      · rw [tokenContents, words_cons_of_word hkind]
        refine .token .nothing .nothing hlexeme (fun htext => ?_) hrest
        have hslash : kind = .slash := by
          have hall : ∀ r ∈ rules [], r.fits ['/'] = true → r.kind? = some .slash := by decide +kernel
          exact Option.some.inj (hkind.symm.trans (hall _ hmakes.1 (htext ▸ hmakes.2.1)))
        obtain ⟨hstar, hne⟩ := head?_ne_of_followsSlash hps (hslashes.1 hslash)
        exact ⟨hstar, fun _ => hne⟩
      · cases hkind.symm.trans hbreaks.1
    | none =>
      rw [words_cons_of_skipped hkind] at hslashes
      obtain ⟨hclosed, hopen⟩ := ih hps hsupported hslashes
      rw [tokenContents, words_cons_of_skipped hkind]
      obtain ⟨r, text⟩ := p
      cases r with
      | fixed | number | text | name => cases hkind
      | comment =>
        obtain ⟨body, rfl, hbody⟩ := not_mem_of_comment hmakes.2.1
        have hmem : '\n' ∉ '#' :: body := not_mem_cons_of_ne_of_not_mem (by decide) hbody
        refine ⟨hopen hp body hbody, fun hbreaks outer houter => ?_⟩
        exact tiles_open_comment houter (fun h => absurd h hmem) hclosed fun _ =>
          hopen (hbreaks.2.resolve_left hmem)
      | blanks =>
        have hgaps : ∀ c ∈ text, isGap c = true := all_eq_true.1 (Bool.and_eq_true_iff.1 hmakes.2.1).2
        refine ⟨hclosed.behind (loose_of_gaps hgaps), fun hbreaks outer houter => ?_⟩
        exact tiles_open_comment houter (fun _ => hgaps) hclosed fun hmem =>
          hopen (hbreaks.2.resolve_left hmem)

end ScriptWorkbench.Reference
