/-
The lexemes of the target language, for the part that expressions use: names and reserved words, numerals,
string literals and punctuation, each as long as possible. Which reading a text has can hang on it: `1.e5` is
one numeral, although the emitter means the attribute `e5` of `1` by it.

`Contributes` says what a stretch of text adds to the lexemes of a text that goes on with a given character. A
name contributes one word or spoils the text, a numeral one number, a string literal one quoted text.
-/
import ScriptWorkbench.Number.Written
import ScriptWorkbench.Proofs.Numerals
import ScriptWorkbench.Text.Identifier

namespace ScriptWorkbench.Target

open Number Text List

variable {cs ds point power rest : List Char} {whole : Bool} {c : Char} {significand : Nat}
  {ok : List Char → Prop}

/-! ## Scanning -/

/-- A lexeme of the target language with its text. -/
inductive Lexeme where
  | word (text : String)
  | number (text : String)
  | quoted (text : String)
  | symbol (text : String)
deriving Repr, DecidableEq

/-- The punctuation of expressions. A longer mark stands before a shorter one that it begins with. -/
def punctuation : List String :=
  ["**", "//", "<<", ">>", ":=", "==", "!=", "<=", ">=", "(", ")", "[", "]", ",", ".", "+", "-",
   "*", "/", "<", ">"]

def pointPart : List Char → List Char × List Char
  | '.' :: cs => ('.' :: cs.takeWhile Char.isDigit, cs.dropWhile Char.isDigit)
  | cs => ([], cs)

def powerPart : List Char → List Char × List Char
  | e :: s :: cs =>
    if (e = 'e' ∨ e = 'E') ∧ (s.isDigit ∨ (s = '+' ∨ s = '-') ∧ cs.head?.any Char.isDigit) then
      (e :: s :: cs.takeWhile Char.isDigit, cs.dropWhile Char.isDigit)
    else ([], e :: s :: cs)
  | cs => ([], cs)

def numeral (cs : List Char) : List Char × List Char :=
  let (point, rest) := pointPart (cs.dropWhile Char.isDigit)
  let (power, rest) := powerPart rest
  (cs.takeWhile Char.isDigit ++ point ++ power, rest)

/-- The rest of a string literal up to its closing quote, and what is left. A backslash takes the
next character along, and the literal stands on one line. -/
def quotedTail (quote : Char) : List Char → Option (List Char × List Char)
  | [] => none
  | '\\' :: d :: cs => (quotedTail quote cs).map fun (taken, rest) => ('\\' :: d :: taken, rest)
  | c :: cs =>
    if c = quote then some ([c], cs)
    else if c = '\n' then none
    else (quotedTail quote cs).map fun (taken, rest) => (c :: taken, rest)

def nextLexeme (c : Char) (cs : List Char) : Option (Lexeme × List Char) :=
  if startsName c then
    some (.word (String.ofList (c :: cs.takeWhile continuesName)), cs.dropWhile continuesName)
  else if c.isDigit ∨ c = '.' ∧ cs.head?.any Char.isDigit then
    let (taken, rest) := numeral (c :: cs)
    some (.number (String.ofList taken), rest)
  else if c = '"' ∨ c = Char.ofNat 39 then
    (quotedTail c cs).map fun (taken, rest) => (.quoted (String.ofList (c :: taken)), rest)
  else
    (punctuation.find? fun mark => mark.toList.isPrefixOf (c :: cs)).map fun mark =>
      (.symbol mark, (c :: cs).drop mark.length)

theorem pointPart_length (cs : List Char) : (pointPart cs).2.length ≤ cs.length := by
  fun_cases pointPart cs with
  | case1 cs =>
    have := (dropWhile_suffix Char.isDigit (l := cs)).length_le
    grind
  | case2 => exact Nat.le_refl _

theorem powerPart_length (cs : List Char) : (powerPart cs).2.length ≤ cs.length := by
  fun_cases powerPart cs with
  | case1 e s cs =>
    have := (dropWhile_suffix Char.isDigit (l := cs)).length_le
    grind
  | case2 | case3 => exact Nat.le_refl _

theorem quotedTail_length {quote : Char} {taken : List Char}
    (h : quotedTail quote cs = some (taken, rest)) : rest.length ≤ cs.length := by
  fun_induction quotedTail quote cs generalizing taken with
  | case1 | case4 => cases h
  | case2 d cs ih | case5 c cs _ _ _ ih =>
    obtain ⟨⟨taken', rest'⟩, hr, heq⟩ := Option.map_eq_some_iff.1 h
    grind
  | case3 =>
    grind

theorem length_pos_of_mem_punctuation {mark : String} (h : mark ∈ punctuation) :
    0 < mark.length := by
  revert mark
  decide

theorem nextLexeme_length {l : Lexeme} (h : nextLexeme c cs = some (l, rest)) :
    rest.length ≤ cs.length := by
  unfold nextLexeme at h
  split at h
  · cases h
    exact (dropWhile_suffix _).length_le
  · split at h
    next hc =>
      cases h
      refine Nat.le_trans (powerPart_length _) ?_
      rcases hc with hc | ⟨rfl, -⟩
      · rw [dropWhile_cons_of_pos hc]
        exact Nat.le_trans (pointPart_length _) (dropWhile_suffix _).length_le
      · exact (dropWhile_suffix Char.isDigit).length_le
    next =>
      split at h
      · obtain ⟨⟨taken, rest'⟩, hr, heq⟩ := Option.map_eq_some_iff.1 h
        cases heq
        exact quotedTail_length hr
      · obtain ⟨mark, hmark, heq⟩ := Option.map_eq_some_iff.1 h
        have := length_pos_of_mem_punctuation (mem_of_find?_eq_some hmark)
        grind

def lex (cs : List Char) : Option (List Lexeme) :=
  match cs with
  | [] => some []
  | c :: cs =>
    if c = ' ' then lex cs
    else
      match _h : nextLexeme c cs with
      | none => none
      | some (l, rest) => (lex rest).map (l :: ·)
termination_by cs.length
decreasing_by
  · simp
  · have := nextLexeme_length _h
    grind

@[simp] theorem lex_nil : lex [] = some [] := by rw [lex]

@[simp] theorem lex_space (cs : List Char) : lex (' ' :: cs) = lex cs := by rw [lex, if_pos rfl]

theorem lex_cons {l : Lexeme} (hc : c ≠ ' ') (h : nextLexeme c cs = some (l, rest)) :
    lex (c :: cs) = (lex rest).map (l :: ·) := by
  rw [lex, if_neg hc]
  split
  next hnone => rw [h] at hnone; cases hnone
  next l' rest' hsome => rw [h] at hsome; cases hsome; rfl

theorem lex_eq_none (hc : c ≠ ' ') (h : nextLexeme c cs = none) :
    lex (c :: cs) = none := by
  rw [lex, if_neg hc]
  split
  next => rfl
  next hsome => rw [h] at hsome; cases hsome

/-! ## What a stretch of text contributes -/

/-- Before any text that `ok` admits, the stretch adds the given lexemes to those of that text, or
spoils the whole if there are none. -/
def Contributes (ok : List Char → Prop) (text : List Char) (o : Option (List Lexeme)) : Prop :=
  ∀ rest, ok rest → lex (text ++ rest) = o.bind fun ls => (lex rest).map (ls ++ ·)

/-- What follows an operand: nothing, a space, a comma, a bracket, or a point unless the operand ends
in a whole number. -/
def Follows (whole : Bool) (rest : List Char) : Prop :=
  ∀ c ∈ rest.head?, c ∈ [' ', ',', '(', ')', '[', ']'] ∨ c = '.' ∧ whole = false

def Anything (_ : List Char) : Prop := True

theorem Follows.head_eq_false {p : Char → Bool} (h : Follows whole rest)
    (hp : ['.', ' ', ',', '(', ')', '[', ']'].any p = false) :
    ∀ c ∈ rest.head?, p c = false := by
  intro c hc
  have hmark : c ∈ ['.', ' ', ',', '(', ')', '[', ']'] := by
    rcases h c hc with hc | ⟨rfl, -⟩
    · exact mem_cons_of_mem _ hc
    · exact mem_cons_self
  exact Bool.eq_false_iff.2 (any_eq_false.1 hp c hmark)

theorem Follows.not_continuesName (h : Follows whole rest) :
    ∀ c ∈ rest.head?, continuesName c = false :=
  h.head_eq_false rfl

theorem Contributes.append {ok₁ ok₂ : List Char → Prop} {a b : List Char}
    {o₁ o₂ : Option (List Lexeme)} (ha : Contributes ok₁ a o₁) (hb : Contributes ok₂ b o₂)
    (h : ∀ rest, ok₂ rest → ok₁ (b ++ rest)) :
    Contributes ok₂ (a ++ b) (o₁.bind fun ls => o₂.map (ls ++ ·)) := by
  intro rest hrest
  rw [append_assoc, ha _ (h rest hrest), hb rest hrest]
  cases o₁ <;> cases o₂ <;> simp [Function.comp_def]

theorem contributes_nil (ok : List Char → Prop) : Contributes ok [] (some []) := by
  intro rest _
  rw [Option.bind_some]
  exact Option.map_id.symm ▸ rfl

theorem Contributes.lexeme {left : List Char} {l : Lexeme} {o : Option (List Lexeme)}
    (hleft : Contributes ok left o) (hc : c ≠ ' ')
    (h : ∀ rest, ok rest → nextLexeme c (cs ++ rest) = some (l, left ++ rest)) :
    Contributes ok (c :: cs) (o.map (l :: ·)) := by
  intro rest hrest
  rw [cons_append, lex_cons hc (h rest hrest), hleft rest hrest]
  cases o <;> simp [Function.comp_def]

theorem contributes_lexeme {l : Lexeme} (hc : c ≠ ' ')
    (h : ∀ rest, ok rest → nextLexeme c (cs ++ rest) = some (l, rest)) :
    Contributes ok (c :: cs) (some [l]) :=
  (contributes_nil ok).lexeme hc h

theorem Contributes.space {text : List Char} {o : Option (List Lexeme)} (h : Contributes ok text o) :
    Contributes ok (' ' :: text) o := by
  intro rest hrest
  rw [cons_append, lex_space, h rest hrest]

theorem Contributes.append_space {text : List Char} {o : Option (List Lexeme)}
    (h : Contributes ok text o) (hok : ∀ rest, ok (' ' :: rest)) :
    Contributes Anything (text ++ [' ']) o := by
  intro rest _
  rw [append_assoc, singleton_append, h _ (hok rest), lex_space]

theorem forall_or_split (p : Char → Bool) (cs : List Char) :
    (∀ c ∈ cs, p c = true) ∨ ∃ xs d ys, cs = xs ++ d :: ys ∧ (∀ c ∈ xs, p c = true) ∧ p d = false := by
  induction cs with
  | nil => exact .inl (by simp)
  | cons c cs ih =>
    cases hc : p c with
    | false => exact .inr ⟨[], c, cs, rfl, by simp, hc⟩
    | true =>
      rcases ih with hall | ⟨xs, d, ys, rfl, hxs, hd⟩
      · exact .inl (forall_mem_cons.2 ⟨hc, hall⟩)
      · exact .inr ⟨c :: xs, d, ys, rfl, forall_mem_cons.2 ⟨hc, hxs⟩, hd⟩

/-! ## Punctuation -/

theorem contributes_symbol (hc : c ∈ ['(', ')', '[', ']', ',', '-', '+']) :
    Contributes Anything [c] (some [.symbol (String.ofList [c])]) := by
  have hspace : c ≠ ' ' := by
    rintro rfl
    simp at hc
  refine contributes_lexeme hspace fun rest _ => ?_
  simp only [mem_cons, not_mem_nil, or_false] at hc
  rcases hc with rfl | rfl | rfl | rfl | rfl | rfl | rfl <;> rfl

/-! ## Words -/

/-- What the script language can have for a name, as far as the target language is concerned: beyond
ASCII its characters need not be those of a name. -/
def Wordlike : List Char → Prop
  | [] => False
  | c :: cs => (128 ≤ c.toNat ∨ startsName c = true) ∧ ∀ d ∈ cs, 128 ≤ d.toNat ∨ continuesName d = true

theorem continuesName_of_startsName (h : startsName c = true) :
    continuesName c = true := by
  rw [continuesName, h, Bool.true_or]

theorem startsName_eq_false_of_isDigit (h : c.isDigit = true) :
    startsName c = false := by
  have hdigits : ∀ n < 58, 48 ≤ n → startsName (Char.ofNat n) = false := by decide
  obtain ⟨hlow, hhigh⟩ : 48 ≤ c.toNat ∧ c.toNat ≤ 57 := Char.isDigit_iff_toNat.1 h
  have hc := hdigits c.toNat (by omega) hlow
  rwa [Char.ofNat_toNat] at hc

theorem lt_of_mem_punctuation {mark : String} (h : mark ∈ punctuation) :
    ∃ c cs, mark.toList = c :: cs ∧ c.toNat < 128 := by
  have hall : ∀ mark ∈ punctuation, (mark.toList.head?.any fun c => c.toNat < 128) = true := by decide
  have hmark := hall mark h
  cases hcs : mark.toList with
  | nil => rw [hcs] at hmark; cases hmark
  | cons c cs =>
    rw [hcs] at hmark
    exact ⟨c, cs, rfl, by simpa using hmark⟩

theorem nextLexeme_eq_none (cs : List Char) (hc : 128 ≤ c.toNat) (hs : startsName c = false) :
    nextLexeme c cs = none := by
  have hdigit : ¬(c.isDigit = true ∨ c = '.' ∧ cs.head?.any Char.isDigit = true) := by
    rintro (h | ⟨rfl, -⟩)
    · have hrange : 48 ≤ c.toNat ∧ c.toNat ≤ 57 := Char.isDigit_iff_toNat.1 h
      omega
    · exact absurd hc (by decide)
  have hquote : ¬(c = '"' ∨ c = Char.ofNat 39) := by rintro (rfl | rfl) <;> exact absurd hc (by decide)
  have hmark : punctuation.find? (fun mark => mark.toList.isPrefixOf (c :: cs)) = none := by
    rw [find?_eq_none]
    intro mark hmem hpre
    obtain ⟨d, ds, hds, hd⟩ := lt_of_mem_punctuation hmem
    rw [hds, isPrefixOf_iff_prefix] at hpre
    obtain ⟨rfl, -⟩ := cons_prefix_cons.1 hpre
    omega
  rw [nextLexeme, hs, if_neg hdigit, if_neg hquote, hmark]
  rfl

theorem contributes_word (h : Wordlike cs) :
    Contributes (Follows false) cs (if isIdentifier cs then some [.word (String.ofList cs)] else none) := by
  cases cs with
  | nil => exact h.elim
  | cons c cs =>
    obtain ⟨hc, hcs⟩ := h
    intro rest hrest
    have hspace : c ≠ ' ' := by
      rintro rfl
      exact absurd hc (by decide)
    cases hstart : startsName c with
    | false =>
      have hbig : 128 ≤ c.toNat := hc.resolve_right (by rw [hstart]; exact Bool.false_ne_true)
      rw [cons_append, lex_eq_none hspace (nextLexeme_eq_none _ hbig hstart), isIdentifier, hstart]
      rfl
    | true =>
      rw [isIdentifier, hstart, Bool.true_and, cons_append]
      obtain hall | ⟨xs, d, ys, rfl, hxs, hd⟩ := forall_or_split continuesName cs
      · obtain ⟨htake, hdrop⟩ := takeWhile_append_of_stop hall hrest.not_continuesName
        have hnext : nextLexeme c (cs ++ rest) = some (.word (String.ofList (c :: cs)), rest) := by
          rw [nextLexeme, if_pos hstart, htake, hdrop]
        rw [lex_cons hspace hnext, if_pos (all_eq_true.2 hall)]
        rfl
      · have hdbig : 128 ≤ d.toNat := (hcs d (by simp)).resolve_right (by rw [hd]; exact Bool.false_ne_true)
        have hdstart : startsName d = false := by
          cases hsd : startsName d with
          | false => rfl
          | true => rw [continuesName_of_startsName hsd] at hd; cases hd
        have hdspace : d ≠ ' ' := by
          rintro rfl
          exact absurd hdbig (by decide)
        have hstop : ∀ x ∈ (d :: (ys ++ rest)).head?, continuesName x = false := by
          rintro x ⟨⟩
          exact hd
        obtain ⟨htake, hdrop⟩ := takeWhile_append_of_stop hxs hstop
        have hnext : nextLexeme c (xs ++ d :: (ys ++ rest)) =
            some (.word (String.ofList (c :: xs)), d :: (ys ++ rest)) := by
          rw [nextLexeme, if_pos hstart, htake, hdrop]
        have hall : ¬(xs ++ d :: ys).all continuesName = true := by simp [hd]
        rw [append_assoc, cons_append, lex_cons hspace hnext, if_neg hall,
          lex_eq_none hdspace (nextLexeme_eq_none _ hdbig hdstart)]
        rfl

/-! ## Numerals -/

def Digits (cs : List Char) : Prop := ∀ c ∈ cs, c.isDigit = true

/-- The fraction of a numeral, which may be absent. -/
inductive PointText : List Char → Prop where
  | nothing : PointText []
  | digits {fs : List Char} : Digits fs → PointText ('.' :: fs)

/-- The power of ten of a numeral, which may be absent. -/
inductive PowerText : List Char → Prop where
  | nothing : PowerText []
  | digits {s x : Char} {xs : List Char} :
      s = '+' ∨ s = '-' → Digits (x :: xs) → PowerText ('e' :: s :: x :: xs)

theorem Follows.not_isDigit (h : Follows whole rest) :
    ∀ c ∈ rest.head?, c.isDigit = false :=
  h.head_eq_false rfl

theorem PowerText.not_isDigit (h : PowerText power) (hrest : Follows whole rest) :
    ∀ c ∈ (power ++ rest).head?, c.isDigit = false := by
  cases h with
  | nothing => exact hrest.not_isDigit
  | digits => rintro c ⟨⟩; rfl

theorem PointText.not_isDigit (h : PointText point) (hp : PowerText power)
    (hrest : Follows whole rest) :
    ∀ c ∈ (point ++ (power ++ rest)).head?, c.isDigit = false := by
  cases h with
  | nothing => exact hp.not_isDigit hrest
  | digits => rintro c ⟨⟩; rfl

theorem powerPart_of_follows (h : Follows whole rest) :
    powerPart rest = ([], rest) := by
  have hletter := h.head_eq_false (p := fun c => decide (c = 'e' ∨ c = 'E')) rfl
  fun_cases powerPart rest with
  | case1 e s cs hpower => exact absurd hpower.1 (of_decide_eq_false (hletter e rfl))
  | case2 | case3 => rfl

theorem powerPart_append (h : PowerText power) (hrest : Follows whole rest) :
    powerPart (power ++ rest) = (power, rest) := by
  cases h with
  | nothing => exact powerPart_of_follows hrest
  | @digits s x xs hs hxs =>
    have hdigit : x.isDigit = true := hxs x mem_cons_self
    have hstop := takeWhile_append_of_stop hxs hrest.not_isDigit
    simp only [cons_append] at hstop ⊢
    rw [powerPart, if_pos ⟨.inl rfl, .inr ⟨hs, hdigit⟩⟩, hstop.1, hstop.2]

theorem pointPart_append (h : PointText point) (hp : PowerText power)
    (hrest : Follows (point.isEmpty && power.isEmpty) rest) :
    pointPart (point ++ (power ++ rest)) = (point, power ++ rest) := by
  cases h with
  | nothing =>
    -- No point can start what follows: a whole number does not stand before one.
    have hpoint : ∀ c ∈ (power ++ rest).head?, c ≠ '.' := by
      cases hp with
      | nothing =>
        rintro c hc rfl
        rcases hrest '.' hc with hmark | ⟨-, hwhole⟩
        · simp at hmark
        · cases hwhole
      | digits => rintro c ⟨⟩; decide
    generalize power ++ rest = cs at hpoint
    fun_cases pointPart cs with
    | case1 => exact absurd rfl (hpoint '.' rfl)
    | case2 => rfl
  | @digits fs hfs =>
    have hstop := takeWhile_append_of_stop hfs (hp.not_isDigit hrest)
    rw [cons_append, pointPart, hstop.1, hstop.2]

theorem contributes_numeral {d : Char} (hds : Digits (d :: ds)) (hpoint : PointText point)
    (hpower : PowerText power) :
    Contributes (Follows (point.isEmpty && power.isEmpty)) (d :: (ds ++ (point ++ power)))
      (some [.number (String.ofList (d :: (ds ++ (point ++ power))))]) := by
  have hd : d.isDigit = true := hds d mem_cons_self
  refine contributes_lexeme (by rintro rfl; exact absurd hd (by decide)) fun rest hrest => ?_
  have hstop := takeWhile_append_of_stop hds (hpoint.not_isDigit hpower hrest)
  have hnumeral : numeral (d :: (ds ++ (point ++ power) ++ rest)) =
      (d :: (ds ++ (point ++ power)), rest) := by
    have hassoc : d :: (ds ++ (point ++ power) ++ rest) = d :: ds ++ (point ++ (power ++ rest)) := by simp
    rw [numeral, hassoc, hstop.1, hstop.2, pointPart_append hpoint hpower hrest]
    simp only [powerPart_append hpower hrest, append_assoc, cons_append]
  rw [nextLexeme, startsName_eq_false_of_isDigit hd, if_neg Bool.false_ne_true, if_pos (.inl hd), hnumeral]

/-! ## Names behind a whole number -/

def dots (ls : List Lexeme) : Nat := ls.count (.symbol ".")

@[simp] theorem dots_append (ls ms : List Lexeme) : dots (ls ++ ms) = dots ls + dots ms := count_append

theorem startsName_of_not_isDigit (h : 128 ≤ c.toNat ∨ continuesName c = true)
    (hc : c.isDigit = false) : 128 ≤ c.toNat ∨ startsName c = true := by
  by_cases hbig : 128 ≤ c.toNat
  · exact .inl hbig
  · right
    have hname := h.resolve_left hbig
    rw [continuesName, hasProperty_ascii (by omega), hc, Bool.or_false] at hname
    exact hname

theorem Wordlike.head_not_isDigit (h : Wordlike cs) (rest : List Char) :
    ∀ c ∈ (cs ++ rest).head?, c.isDigit = false := by
  cases cs with
  | nil => exact h.elim
  | cons c cs =>
    rintro d ⟨⟩
    cases hd : c.isDigit with
    | false => rfl
    | true =>
      have hrange : 48 ≤ c.toNat ∧ c.toNat ≤ 57 := Char.isDigit_iff_toNat.1 hd
      have hstart := startsName_eq_false_of_isDigit hd
      rcases h.1 with hbig | hs
      · omega
      · rw [hstart] at hs
        cases hs

theorem powerPart_of_wordlike {field : List Char} (h : Wordlike field) :
    ∃ taken left, (left = [] ∨ Wordlike left) ∧
      ∀ rest, Follows false rest → powerPart (field ++ rest) = (taken, left ++ rest) := by
  match field, h with
  | [e], h =>
    refine ⟨[], [e], .inr h, fun rest hrest => ?_⟩
    cases rest with
    | nil => rfl
    | cons s rest =>
      have hs : ¬(s.isDigit = true ∨ s = '+' ∨ s = '-') := of_decide_eq_false <|
        hrest.head_eq_false (p := fun c => decide (c.isDigit = true ∨ c = '+' ∨ c = '-')) rfl s rfl
      have hpower : ¬((e = 'e' ∨ e = 'E') ∧
          (s.isDigit = true ∨ (s = '+' ∨ s = '-') ∧ rest.head?.any Char.isDigit = true)) := by
        rintro ⟨-, hd | ⟨hsign, -⟩⟩
        · exact hs (.inl hd)
        · exact hs (.inr hsign)
      exact if_neg hpower
  | e :: s :: cs, ⟨he, hcs⟩ =>
    have hsign : ¬(s = '+' ∨ s = '-') := by
      rintro (rfl | rfl) <;> exact absurd (hcs _ mem_cons_self) (by decide)
    by_cases hpower : (e = 'e' ∨ e = 'E') ∧ s.isDigit = true
    · have hif : ∀ rest : List Char, (e = 'e' ∨ e = 'E') ∧
          (s.isDigit = true ∨ (s = '+' ∨ s = '-') ∧ rest.head?.any Char.isDigit = true) :=
        fun _ => ⟨hpower.1, .inl hpower.2⟩
      obtain hall | ⟨xs, d, ys, rfl, hxs, hd⟩ := forall_or_split Char.isDigit cs
      · refine ⟨e :: s :: cs, [], .inl rfl, fun rest hrest => ?_⟩
        have hstop := takeWhile_append_of_stop hall hrest.not_isDigit
        rw [cons_append, cons_append, powerPart, if_pos (hif _), hstop.1, hstop.2, nil_append]
      · have hleft : Wordlike (d :: ys) :=
          ⟨startsName_of_not_isDigit (hcs d (by simp)) hd, fun x hx => hcs x (by simp [hx])⟩
        refine ⟨e :: s :: xs, d :: ys, .inr hleft, fun rest _ => ?_⟩
        have hstop := takeWhile_append_of_stop hxs (hleft.head_not_isDigit rest)
        rw [cons_append, cons_append, append_assoc, powerPart, if_pos (hif _), hstop.1, hstop.2]
    · refine ⟨[], e :: s :: cs, .inr ⟨he, hcs⟩, fun rest _ => ?_⟩
      refine if_neg ?_
      rintro ⟨hexp, hd | ⟨hs, -⟩⟩
      · exact hpower ⟨hexp, hd⟩
      · exact hsign hs

theorem contributes_glued {d : Char} {field : List Char} (hds : Digits (d :: ds))
    (hfield : Wordlike field) :
    ∃ o, Contributes (Follows false) (d :: (ds ++ '.' :: field)) o ∧ ∀ ls ∈ o, dots ls = 0 := by
  have hd : d.isDigit = true := hds d mem_cons_self
  have hspace : d ≠ ' ' := by rintro rfl; exact absurd hd (by decide)
  obtain ⟨taken, left, hleft, hpower⟩ := powerPart_of_wordlike hfield
  have hnext : ∀ rest, Follows false rest → nextLexeme d (ds ++ '.' :: field ++ rest) =
      some (.number (String.ofList (d :: ds ++ ['.'] ++ taken)), left ++ rest) := by
    intro rest hrest
    have hdot : ∀ c ∈ ('.' :: (field ++ rest)).head?, c.isDigit = false := by rintro c ⟨⟩; rfl
    have hwhole := takeWhile_append_of_stop hds hdot
    have hpoint := takeWhile_append_of_stop (forall_mem_nil _) (hfield.head_not_isDigit rest)
    have hassoc : d :: (ds ++ '.' :: field ++ rest) = d :: ds ++ '.' :: (field ++ rest) := by simp
    rw [nextLexeme, startsName_eq_false_of_isDigit hd, if_neg Bool.false_ne_true, if_pos (.inl hd),
      numeral, hassoc, hwhole.1, hwhole.2, pointPart, ← nil_append (field ++ rest), hpoint.1,
      hpoint.2]
    simp only [hpower rest hrest]
  obtain ⟨o, ho, hdots⟩ :
      ∃ o, Contributes (Follows false) left o ∧ ∀ ls ∈ o, dots ls = 0 := by
    obtain rfl | hword := hleft
    · exact ⟨_, contributes_nil _, by rintro ls ⟨⟩; rfl⟩
    · refine ⟨_, contributes_word hword, fun ls hls => ?_⟩
      split at hls
      · cases hls
        rfl
      · cases hls
  refine ⟨_, ho.lexeme hspace hnext, fun ls hls => ?_⟩
  obtain ⟨ms, hms, rfl⟩ := Option.map_eq_some_iff.1 hls
  exact hdots ms hms

/-! ## String literals -/

def StaysInside (quote : Char) (text : List Char) : Prop :=
  ∀ rest, quotedTail quote (text ++ rest) =
    (quotedTail quote rest).map fun (taken, left) => (text ++ taken, left)

theorem staysInside_nil (quote : Char) : StaysInside quote [] := by
  intro rest
  simp

theorem StaysInside.append {quote : Char} {a b : List Char} (ha : StaysInside quote a)
    (hb : StaysInside quote b) : StaysInside quote (a ++ b) := by
  intro rest
  rw [append_assoc, ha, hb]
  simp [Function.comp_def]

theorem staysInside_escape (quote c : Char) : StaysInside quote ['\\', c] := by
  intro rest
  rfl

theorem staysInside_char {quote : Char} (hq : c ≠ quote) (hb : c ≠ '\\') (hn : c ≠ '\n') :
    StaysInside quote [c] := by
  intro rest
  rw [singleton_append, quotedTail.eq_3 _ _ _ (by rintro _ _ rfl; exact absurd rfl hb), if_neg hq, if_neg hn]
  rfl

theorem staysInside_flatMap {quote : Char} {f : Char → List Char}
    (h : ∀ c, StaysInside quote (f c)) (cs : List Char) : StaysInside quote (cs.flatMap f) := by
  induction cs with
  | nil => exact staysInside_nil quote
  | cons c cs ih => rw [flatMap_cons]; exact (h c).append ih

theorem staysInside_hexDigits {quote : Char} (hquote : quote = '"' ∨ quote = Char.ofNat 39)
    (width n : Nat) : StaysInside quote (hexDigits width n) := by
  have hdigits : ∀ d < 16, hexDigit d ≠ '"' ∧ hexDigit d ≠ Char.ofNat 39 ∧ hexDigit d ≠ '\\' ∧
      hexDigit d ≠ '\n' := by decide
  induction width generalizing n with
  | zero => exact staysInside_nil quote
  | succ width ih =>
    obtain ⟨h₁, h₂, h₃, h₄⟩ := hdigits (n % 16) (Nat.mod_lt _ (by decide))
    refine (ih (n / 16)).append (staysInside_char ?_ h₃ h₄)
    rcases hquote with rfl | rfl
    · exact h₁
    · exact h₂

theorem staysInside_quoteChar {quote : Char} (hquote : quote = '"' ∨ quote = Char.ofNat 39)
    (c : Char) : StaysInside quote (quoteChar quote c) := by
  have hhex : ∀ x width, StaysInside quote ('\\' :: x :: hexDigits width c.toNat) :=
    fun x width => (staysInside_escape quote x).append (staysInside_hexDigits hquote width _)
  rw [quoteChar]
  split
  · exact staysInside_escape quote c
  next hc =>
    split
    · exact staysInside_escape quote 't'
    · split
      · exact staysInside_escape quote 'n'
      next hn =>
        split
        · exact staysInside_escape quote 'r'
        · split
          · exact staysInside_char (fun h => hc (.inl h)) (fun h => hc (.inr h)) hn
          · split
            · exact hhex 'x' 2
            · split
              · exact hhex 'u' 4
              · exact hhex 'U' 8

theorem quoteFor_cases (cs : List Char) : quoteFor cs = '"' ∨ quoteFor cs = Char.ofNat 39 := by
  rw [quoteFor]
  split
  · exact .inl rfl
  · exact .inr rfl

theorem quotedTail_flatMap {quote : Char} (hquote : quote = '"' ∨ quote = Char.ofNat 39)
    (cs rest : List Char) :
    quotedTail quote (cs.flatMap (quoteChar quote) ++ quote :: rest) =
      some (cs.flatMap (quoteChar quote) ++ [quote], rest) := by
  have hback : quote ≠ '\\' := by rcases hquote with rfl | rfl <;> decide
  rw [staysInside_flatMap (staysInside_quoteChar hquote),
    quotedTail.eq_3 _ _ _ (by rintro _ _ rfl; exact absurd rfl hback), if_pos rfl]
  rfl

theorem contributes_quote (s : String) :
    Contributes Anything (quote s).toList (some [.quoted (quote s)]) := by
  have hquote := quoteFor_cases s.toList
  rw [quote, String.toList_ofList, quoteChars]
  generalize quoteFor s.toList = q at hquote
  have hstart : startsName q = false := by rcases hquote with rfl | rfl <;> rfl
  have hnumber : ∀ cs : List Char,
      ¬(q.isDigit = true ∨ q = '.' ∧ cs.head?.any Char.isDigit = true) := by
    rcases hquote with rfl | rfl <;> simp +decide
  refine contributes_lexeme (by rcases hquote with rfl | rfl <;> decide) fun rest _ => ?_
  rw [nextLexeme, hstart, if_neg (hnumber _), if_pos hquote,
    append_assoc, singleton_append, quotedTail_flatMap hquote]
  rfl

/-! ## The texts of numbers -/

theorem digits_toString (n : Nat) : Digits (toString n).toList := by
  rw [Nat.toString_eq_ofList_toDigits, String.toList_ofList]
  exact isDigit_toDigits n

theorem exists_toString_eq_cons (n : Nat) : ∃ d ds, (toString n).toList = d :: ds := by
  rw [Nat.toString_eq_ofList_toDigits, String.toList_ofList]
  exact exists_cons_of_ne_nil Nat.toDigits_ne_nil

theorem contributes_toString (n : Nat) :
    Contributes (Follows true) (toString n).toList (some [.number (toString n)]) := by
  obtain ⟨d, ds, hds⟩ := exists_toString_eq_cons n
  have hdigits := digits_toString n
  have h := contributes_numeral (hds ▸ hdigits) .nothing .nothing
  rw [append_nil, append_nil, ← hds, String.ofList_toList] at h
  exact h

theorem digits_stripZeros (h : Digits ds) : Digits (stripZeros ds) := by
  intro c hc
  rw [stripZeros, mem_reverse] at hc
  exact h c (mem_reverse.1 ((dropWhile_suffix _).subset hc))

theorem digits_replicate (n : Nat) : Digits (replicate n '0') := by
  intro c hc
  rw [eq_of_mem_replicate hc]
  rfl

theorem Digits.append (hcs : Digits cs) (hds : Digits ds) :
    Digits (cs ++ ds) := by
  intro c hc
  exact (mem_append.1 hc).elim (hcs c) (hds c)

theorem ofDigitChars_zeros (h : ∀ c ∈ cs, c = '0') :
    Nat.ofDigitChars 10 cs 0 = 0 := by
  rw [eq_replicate_of_mem h]
  induction cs.length with
  | zero => rfl
  | succ n ih => exact ih

theorem stripZeros_toString_ne_nil {n : Nat} (h : n ≠ 0) :
    stripZeros (toString n).toList ≠ [] := by
  obtain hall | ⟨xs, d, ys, hsplit, hxs, hd⟩ := forall_or_split (· == '0') (toString n).toList.reverse
  · refine absurd ?_ h
    have hzeros : ∀ c ∈ (toString n).toList, c = '0' := fun c hc => beq_iff_eq.1 (hall c (mem_reverse.2 hc))
    rw [Nat.toString_eq_ofList_toDigits, String.toList_ofList] at hzeros
    rw [← Nat.ofDigitChars_ten_toDigits (n := n), ofDigitChars_zeros hzeros]
  · have hstop : ∀ c ∈ (d :: ys).head?, (c == '0') = false := by rintro c ⟨⟩; exact hd
    rw [stripZeros, hsplit, (takeWhile_append_of_stop hxs hstop).2]
    simp

theorem positional_form {digits : List Char} (h : Digits digits) (p : Int) :
    ∃ d ds fs, Digits (d :: ds) ∧ Digits fs ∧
      positional digits p = d :: (ds ++ ('.' :: fs ++ [])) := by
  simp only [append_nil]
  rw [positional]
  split
  · refine ⟨'0', [], _, ?_, (digits_replicate (-p - 1).toNat).append h, rfl⟩
    rintro c (_ | ⟨_, ⟨⟩⟩)
    rfl
  · dsimp only
    generalize hpadded : digits ++ replicate (p.toNat + 1 - digits.length) '0' = padded
    have hdigits : Digits padded := hpadded ▸ h.append (digits_replicate _)
    have hlength : p.toNat + 1 ≤ padded.length := by
      rw [← hpadded, length_append, length_replicate]
      omega
    cases padded with
    | nil => simp at hlength
    | cons d padded =>
      refine ⟨d, _, _, ?_, ?_, rfl⟩
      · exact fun c hc => hdigits c (mem_of_mem_take (i := p.toNat + 1) (by
          rwa [take_succ_cons]))
      · split
        · rintro c (_ | ⟨_, ⟨⟩⟩)
          rfl
        · exact fun c hc => hdigits c (mem_of_mem_drop hc)

theorem scientific_form {digits : List Char} (h : Digits digits) (hne : digits ≠ []) (p : Int) :
    ∃ d ds point power, Digits (d :: ds) ∧ PointText point ∧ PowerText power ∧ power ≠ [] ∧
      scientific digits p = d :: (ds ++ (point ++ power)) := by
  obtain ⟨x, xs, hsize⟩ := exists_toString_eq_cons p.natAbs
  have hxs : Digits (x :: xs) := hsize ▸ digits_toString p.natAbs
  obtain ⟨power, hpower, hpowerne, hpowereq⟩ : ∃ power, PowerText power ∧ power ≠ [] ∧
      'e' :: (if p < 0 then '-' else '+') ::
        ((if (x :: xs).length < 2 then ['0'] else []) ++ x :: xs) = power := by
    refine ⟨_, ?_, by simp, rfl⟩
    have hsign : (if p < 0 then '-' else '+') = '+' ∨ (if p < 0 then '-' else '+') = '-' := by
      split
      · exact .inr rfl
      · exact .inl rfl
    generalize (if p < 0 then '-' else '+') = s at hsign
    split
    · exact .digits hsign (forall_mem_cons.2 ⟨rfl, hxs⟩)
    · exact .digits hsign hxs
  unfold scientific
  simp only [hsize, hpowereq]
  match digits, hne with
  | [d], _ => exact ⟨d, [], [], power, h, .nothing, hpower, hpowerne, rfl⟩
  | d :: f :: fs, _ =>
    obtain ⟨hd, hfs⟩ := forall_mem_cons.1 h
    refine ⟨d, [], '.' :: f :: fs, power, ?_, .digits hfs, hpower, hpowerne, rfl⟩
    exact forall_mem_cons.2 ⟨hd, forall_mem_nil _⟩

theorem scaleByTwo_one_pos (e : Int) : 0 < (scaleByTwo 1 1 e).1 := by
  rw [scaleByTwo]
  split
  · exact Nat.mul_pos Nat.one_pos (Nat.pow_pos (by decide))
  · exact Nat.one_pos

theorem scaleByTen_zero (e : Int) :
    (scaleByTen 0 1 e).1 = 0 ∧ 0 < (scaleByTen 0 1 e).2 := by
  rw [scaleByTen]
  split
  · exact ⟨Nat.zero_mul _, Nat.one_pos⟩
  · exact ⟨rfl, Nat.mul_pos Nat.one_pos (Nat.pow_pos (by decide))⟩

theorem readsBack_zero (h : significand ≠ 0) (exponent e : Int) :
    readsBack significand exponent 0 e = false := by
  have hlow : 0 < lowerBound significand exponent := by
    rw [lowerBound]
    split <;> omega
  have hun := scaleByTwo_one_pos (2 - exponent)
  obtain ⟨hdn, hdd⟩ := scaleByTen_zero (-e)
  have hpos := Nat.mul_pos (Nat.mul_pos hlow hun) hdd
  unfold readsBack
  simp only [hdn]
  split
  · rw [Bool.and_eq_false_iff]
    exact .inl (decide_eq_false (by omega))
  · rw [Bool.and_eq_false_iff]
    exact .inl (decide_eq_false (by omega))

theorem neighbour?_digits {n : Nat} {exponent p : Int} {d : Decimal} (hs : significand ≠ 0)
    (h : neighbour? significand exponent p n = some d) :
    d.digits ≠ 0 := by
  unfold neighbour? at h
  dsimp only at h
  generalize hq : (scaleByTen _ _ _).1 / (scaleByTen _ _ _).2 = q at h
  have hbelow : readsBack significand exponent q (p + 1 - n) = true → q ≠ 0 := by
    rintro hread rfl
    rw [readsBack_zero hs] at hread
    cases hread
  split at h
  next hread _ =>
    split at h
    · cases h; exact hbelow hread
    · split at h
      · split at h
        · cases h; exact hbelow hread
        · cases h; exact Nat.succ_ne_zero q
      · cases h; exact Nat.succ_ne_zero q
  next hread _ => cases h; exact hbelow hread
  next => cases h; exact Nat.succ_ne_zero q
  next => cases h

theorem shortestFrom_digits (exponent p : Int) (hs : significand ≠ 0) (steps n : Nat) :
    (shortestFrom significand exponent p steps n).digits ≠ 0 ∨
      shortestFrom significand exponent p steps n = ⟨0, 0⟩ := by
  induction steps generalizing n with
  | zero =>
    rw [shortestFrom]
    cases hd : neighbour? significand exponent p n with
    | none => exact .inr rfl
    | some d => exact .inl (neighbour?_digits hs hd)
  | succ steps ih =>
    rw [shortestFrom]
    split
    next d hd => exact .inl (neighbour?_digits hs hd)
    next => exact ih (n + 1)

theorem real_form (significand : Nat) (exponent : Int) :
    ∃ d ds point power, Digits (d :: ds) ∧ PointText point ∧ PowerText power ∧
      (point.isEmpty && power.isEmpty) = false ∧
      (Format.plain.write (.finite false significand exponent)).toList =
        d :: (ds ++ (point ++ power)) := by
  unfold Format.write
  dsimp only
  rw [if_neg Bool.false_ne_true]
  by_cases hs : significand = 0
  · rw [if_pos hs]
    exact ⟨'0', [], ['.', '0'], [], digits_replicate 1, .digits (digits_replicate 1), .nothing, rfl, rfl⟩
  rw [if_neg hs]
  simp only [String.empty_append, String.toList_ofList]
  generalize hd : shortest significand exponent = d
  have hdigits : Digits (leading d).1 := digits_stripZeros (digits_toString d.digits)
  split
  · obtain ⟨x, xs, fs, hxs, hfs, heq⟩ := positional_form hdigits (leading d).2
    exact ⟨x, xs, '.' :: fs, [], hxs, .digits hfs, .nothing, rfl, heq⟩
  next hscientific =>
    have hne : (leading d).1 ≠ [] := by
      have hcases := shortestFrom_digits exponent (magnitude
        (Binary64.ratio significand exponent).1
        (Binary64.ratio significand exponent).2) hs 16 1
      change (shortest significand exponent).digits ≠ 0 ∨
        shortest significand exponent = ⟨0, 0⟩ at hcases
      rw [hd] at hcases
      rcases hcases with hne | rfl
      · exact stripZeros_toString_ne_nil hne
      · exact absurd (by decide) hscientific
    obtain ⟨x, xs, point, power, hxs, hpoint, hpower, hpowerne, heq⟩ :=
      scientific_form hdigits hne (leading d).2
    refine ⟨x, xs, point, power, hxs, hpoint, hpower, ?_, heq⟩
    rw [Bool.and_eq_false_iff]
    exact .inr (by simpa using hpowerne)

theorem contributes_real (significand : Nat) (exponent : Int) :
    Contributes (Follows false)
      (Format.plain.write (.finite false significand exponent)).toList
      (some [.number (Format.plain.write (.finite false significand exponent))]) := by
  obtain ⟨d, ds, point, power, hds, hpoint, hpower, hwhole, htext⟩ := real_form significand exponent
  have h := contributes_numeral hds hpoint hpower
  rw [hwhole, ← htext, String.ofList_toList] at h
  exact h

end ScriptWorkbench.Target
