/-
The text of an expression, read back.

Each rule of the emitter is followed by the scan of the target language, so that what is known of the lexemes
of an expression (`Grouping`) becomes a statement about its text (`Produced.reads_iff`). There are two ways in
which a text fails to consist of the lexemes that are meant: a name of the script language may be none in the
target language, which spoils the scan, and a point behind a whole number is taken into the numeral, which
leaves fewer points than attributes.
-/
import ScriptWorkbench.Proofs.Grouping

namespace ScriptWorkbench.Target

open Ast List

variable {e : Expr} {text : List Char} {whole : Bool} {c o : Char} {x : String}
  {tokens : List Token} {ls : List Lexeme} {es : List Expr}

/-! ## Stretches of written text -/

/-- The stretch contributes the lexemes that are meant, and nothing in it is glued; or something in it
is at fault and it contributes fewer points, if anything. -/
def Writes (ok : List Char → Prop) (text : List Char) (ls : List Lexeme) (whole good : Bool) : Prop :=
  ∃ o, Contributes ok text o ∧ (o = some ls ∧ whole = true ∨ good = false ∧ ∀ ms ∈ o, dots ms < dots ls)

theorem Contributes.writes {ok : List Char → Prop} (h : Contributes ok text (some ls)) :
    Writes ok text ls true true :=
  ⟨_, h, .inl ⟨rfl, rfl⟩⟩

theorem Writes.imp {ok ok' : List Char → Prop} {whole' good good' : Bool}
    (h : Writes ok text ls whole good) (hok : ∀ rest, ok' rest → ok rest)
    (hwhole : whole = true → whole' = true) (hgood : good' = true → good = true) :
    Writes ok' text ls whole' good' := by
  obtain ⟨o, ho, hcases⟩ := h
  refine ⟨o, fun rest hrest => ho rest (hok rest hrest), ?_⟩
  rcases hcases with ⟨hls, hw⟩ | ⟨hg, hdots⟩
  · exact .inl ⟨hls, hwhole hw⟩
  · refine .inr ⟨?_, hdots⟩
    cases hg' : good' with
    | false => rfl
    | true => rw [hgood hg'] at hg; cases hg

theorem Writes.append {ok₁ ok₂ : List Char → Prop} {a b : List Char} {ms : List Lexeme}
    {wa wb ga gb : Bool} (ha : Writes ok₁ a ls wa ga) (hb : Writes ok₂ b ms wb gb)
    (hok : ∀ rest, ok₂ rest → ok₁ (b ++ rest)) :
    Writes ok₂ (a ++ b) (ls ++ ms) (wa && wb) (ga && gb) := by
  obtain ⟨oa, hoa, hacases⟩ := ha
  obtain ⟨ob, hob, hbcases⟩ := hb
  refine ⟨_, hoa.append hob hok, ?_⟩
  rcases hacases with ⟨rfl, rfl⟩ | ⟨rfl, hadots⟩
  · rcases hbcases with ⟨rfl, rfl⟩ | ⟨rfl, hbdots⟩
    · exact .inl ⟨rfl, rfl⟩
    · refine .inr ⟨Bool.and_false _, fun ns hns => ?_⟩
      obtain ⟨ms', hms', rfl⟩ := Option.map_eq_some_iff.1 hns
      have := hbdots ms' hms'
      simp only [dots_append]
      omega
  · refine .inr ⟨rfl, fun ns hns => ?_⟩
    obtain ⟨ls', hls', hmap⟩ := Option.bind_eq_some_iff.1 hns
    obtain ⟨ms', hms', rfl⟩ := Option.map_eq_some_iff.1 hmap
    have hlt := hadots ls' hls'
    -- The second stretch never contributes more points than are meant.
    have hle : dots ms' ≤ dots ms := by
      rcases hbcases with ⟨rfl, -⟩ | ⟨-, hbdots⟩
      · cases hms'
        exact Nat.le_refl _
      · exact Nat.le_of_lt (hbdots ms' hms')
    simp only [dots_append]
    omega

theorem follows_cons (rest : List Char) (hc : c ∈ [' ', ',', '(', ')', '[', ']']) :
    Follows whole (c :: rest) := by
  rintro d ⟨⟩
  exact .inl hc

theorem follows_nil (whole : Bool) : Follows whole [] := by rintro d ⟨⟩

theorem contributes_join {op : BinaryOp} (h : ∀ text, op ≠ .other text) :
    Contributes Anything (' ' :: (op.symbol.toList ++ [' '])) (some [joinLexeme op]) := by
  have hlexeme : ∀ {c : Char} {cs : List Char} {l : Lexeme}, c ≠ ' ' →
      (∀ rest, nextLexeme c (cs ++ ' ' :: rest) = some (l, ' ' :: rest)) →
      Contributes Anything (' ' :: (c :: cs ++ [' '])) (some [l]) := by
    intro c cs l hc hnext
    have hstretch : Contributes (fun rest => ∃ r, rest = ' ' :: r) (c :: cs) (some [l]) := by
      refine contributes_lexeme hc ?_
      rintro _ ⟨r, rfl⟩
      exact hnext r
    exact (hstretch.append_space fun r => ⟨r, rfl⟩).space
  cases op with
  | other text => exact absurd rfl (h text)
  | _ => exact hlexeme (by decide) fun rest => rfl

theorem contributes_lead (op : UnaryOp) :
    Contributes Anything (renderUnary op "").toList (some [leadLexeme op]) := by
  cases op with
  | negate => exact contributes_symbol (by decide)
  | not =>
    have hword : Contributes (fun rest => ∃ r, rest = ' ' :: r) ['n', 'o', 't']
        (some [.word "not"]) := by
      refine contributes_lexeme (by decide) ?_
      rintro _ ⟨r, rfl⟩
      rfl
    exact hword.append_space fun r => ⟨r, rfl⟩

theorem contributes_comma : Contributes Anything [',', ' '] (some [.symbol ","]) :=
  (contributes_symbol (c := ',') (by decide)).append_space fun _ => trivial

def Brackets (o c : Char) : Prop := o = '(' ∧ c = ')' ∨ o = '[' ∧ c = ']'

theorem Brackets.follows (h : Brackets o c) (whole : Bool) (rest : List Char) :
    Follows whole (o :: rest) ∧ Follows whole (c :: rest) := by
  rcases h with ⟨rfl, rfl⟩ | ⟨rfl, rfl⟩ <;>
    exact ⟨follows_cons rest (by decide), follows_cons rest (by decide)⟩

theorem Brackets.contributes (h : Brackets o c) :
    Contributes Anything [o] (some [.symbol (String.ofList [o])]) ∧
      Contributes Anything [c] (some [.symbol (String.ofList [c])]) := by
  rcases h with ⟨rfl, rfl⟩ | ⟨rfl, rfl⟩ <;>
    exact ⟨contributes_symbol (by decide), contributes_symbol (by decide)⟩

theorem Writes.enclose {w g : Bool} (h : Writes (Follows whole) text ls w g) (hb : Brackets o c) :
    Writes Anything (o :: (text ++ [c]))
      (.symbol (String.ofList [o]) :: (ls ++ [.symbol (String.ofList [c])])) w g := by
  have hclose := h.append hb.contributes.2.writes fun rest _ => (hb.follows whole rest).2
  have hall := hb.contributes.1.writes.append hclose fun rest _ => trivial
  refine hall.imp (fun _ hrest => hrest) (fun hw => ?_) fun hg => ?_
  · simpa using hw
  · simpa using hg

theorem Writes.applied {text' : List Char} {ms : List Lexeme} {whole' w w' g g' : Bool}
    (h : Writes (Follows whole) text ls w g) (h' : Writes (Follows whole') text' ms w' g')
    (hb : Brackets o c) :
    Writes Anything (text ++ o :: (text' ++ [c]))
      (ls ++ .symbol (String.ofList [o]) :: (ms ++ [.symbol (String.ofList [c])])) (w && w')
      (g && g') :=
  h.append (h'.enclose hb) fun _ _ => (hb.follows whole _).1

/-! ## Names -/

theorem isIdentifier_of_isAtomWord (h : isAtomWord x = true) :
    Text.isIdentifier x.toList = true := by
  rw [isAtomWord, Bool.and_eq_true] at h
  exact h.1

theorem Contributes.writes_if {ok : List Char → Prop} {b good : Bool}
    (h : Contributes ok text (if b then some ls else none)) (hgood : good = true → b = true) :
    Writes ok text ls true good := by
  refine ⟨_, h, ?_⟩
  cases b with
  | true => exact .inl ⟨rfl, rfl⟩
  | false => exact .inr ⟨by simpa using hgood, by rintro ms ⟨⟩⟩

theorem writes_word (h : Wordlike x.toList) :
    Writes (Follows false) x.toList [.word x] true (isAtomWord x) := by
  have hword := contributes_word h
  rw [String.ofList_toList] at hword
  exact hword.writes_if isIdentifier_of_isAtomWord

theorem writes_field (h : Wordlike x.toList) :
    Writes (Follows false) ('.' :: x.toList) [.symbol ".", .word x] true (isFieldWord x) := by
  have hdot : ∀ rest, nextLexeme '.' (x.toList ++ rest) = some (.symbol ".", x.toList ++ rest) := by
    intro rest
    have hnumeral : ¬(('.').isDigit = true ∨ '.' = '.' ∧
        (x.toList ++ rest).head?.any Char.isDigit = true) := by
      rintro (hd | ⟨-, hany⟩)
      · cases hd
      · obtain ⟨d, hd, hdigit⟩ := (Option.any_eq_true _ _).1 hany
        rw [h.head_not_isDigit rest d hd] at hdigit
        cases hdigit
    rw [nextLexeme, if_neg hnumeral]
    rfl
  have hword := (contributes_word h).lexeme (by decide) fun rest _ => hdot rest
  rw [String.ofList_toList, apply_ite (Option.map _)] at hword
  exact hword.writes_if fun hfield => isIdentifier_of_isAtomWord (isAtomWord_of_isFieldWord hfield)

theorem wordlike_of_isIdentifier {cs : List Char} (h : Text.isIdentifier cs = true) :
    Wordlike cs := by
  cases cs with
  | nil => cases h
  | cons c cs =>
    rw [Text.isIdentifier, Bool.and_eq_true, all_eq_true] at h
    exact ⟨.inr h.1, fun d hd => .inr (h.2 d hd)⟩

theorem lex_function_text (rest : List Char) : lex ("lambda s, i: s[i]".toList ++ rest) = none := by
  have h₁ : nextLexeme 'l' ("ambda s, i: s[i]".toList ++ rest) =
      some (.word "lambda", ' ' :: 's' :: (", i: s[i]".toList ++ rest)) := rfl
  have h₂ : nextLexeme 's' (", i: s[i]".toList ++ rest) =
      some (.word "s", ',' :: (" i: s[i]".toList ++ rest)) := rfl
  have h₃ : nextLexeme ',' (" i: s[i]".toList ++ rest) =
      some (.symbol ",", ' ' :: 'i' :: (": s[i]".toList ++ rest)) := rfl
  have h₄ : nextLexeme 'i' (": s[i]".toList ++ rest) =
      some (.word "i", ':' :: (" s[i]".toList ++ rest)) := rfl
  have h₅ : nextLexeme ':' (" s[i]".toList ++ rest) = none := rfl
  change lex ('l' :: ("ambda s, i: s[i]".toList ++ rest)) = none
  rw [lex_cons (by decide) h₁, lex_space, lex_cons (by decide) h₂, lex_cons (by decide) h₃, lex_space,
    lex_cons (by decide) h₄, lex_eq_none (by decide) h₅]
  rfl

theorem writes_alias {callee : Expr} {name : String} (h : alias? callee = some name) :
    Writes (Follows false) name.toList [.word name] true (isAtomWord name) := by
  have hall : ∀ x ∈ callAliases, Text.isIdentifier x.2.toList = true ∨ x.2 = "lambda s, i: s[i]" := by decide
  obtain ⟨n, -, hn⟩ := Option.bind_eq_some_iff.1 h
  obtain ⟨l₁, l₂, hsplit, -⟩ := lookup_eq_some_iff.1 hn
  have hmem : (n, name) ∈ callAliases := by rw [hsplit]; simp
  rcases hall _ hmem with hname | hname
  · exact writes_word (wordlike_of_isIdentifier hname)
  · subst hname
    exact ⟨none, fun rest _ => lex_function_text rest, .inr ⟨rfl, by rintro ms ⟨⟩⟩⟩

theorem toList_renderUnary (op : UnaryOp) (text : String) :
    (renderUnary op text).toList = (renderUnary op "").toList ++ text.toList := by
  cases op <;> simp [renderUnary]

/-! ## Literals -/

theorem writes_literal {v : Literal} (h : Unsigned v) :
    Writes (Follows (endsWhole (.literal v))) v.quoted.toList [literalLexeme v] true true := by
  have hword : ∀ {x : String}, Wordlike x.toList → Text.isIdentifier x.toList = true →
      Writes (Follows false) x.toList [.word x] true true := by
    intro x hx hid
    have := contributes_word hx
    rw [if_pos hid, String.ofList_toList] at this
    exact this.writes
  cases h with
  | int n => exact (contributes_toString n).writes
  | finite significand exponent => exact (contributes_real significand exponent).writes
  | infinite | nan => exact hword (wordlike_of_isIdentifier rfl) rfl
  | text s => exact (contributes_quote s).writes.imp (fun _ _ => trivial) (fun h => h) fun h => h
  | truth b => cases b <;> exact hword (wordlike_of_isIdentifier rfl) rfl

theorem contributes_field_of_endsWhole (tokens : List Token) (h : Produced (.one e))
    (he : endsWhole e = true) (hx : Wordlike x.toList) :
    ∃ text, render tokens e = .ok text ∧
      ∃ o, Contributes (Follows false) (text.toList ++ '.' :: x.toList) o ∧ ∀ ls ∈ o, dots ls = 0 := by
  generalize hs : Subject.one e = s at h
  induction h generalizing e with
  | @literal v hv =>
    cases hs
    cases hv with
    | int n =>
      refine ⟨_, rfl, ?_⟩
      obtain ⟨d, ds, hds⟩ := exists_toString_eq_cons n
      have hdigits := digits_toString n
      rw [hds] at hdigits
      change ∃ o, Contributes (Follows false) ((toString n).toList ++ '.' :: x.toList) o ∧ _
      rw [hds]
      exact contributes_glued hdigits hx
    | _ => cases he
  | @unary operand op _ ih =>
    cases hs
    have hoperand : endsWhole operand = true := he
    obtain ⟨text, htext, o, ho, hdots⟩ := ih hoperand rfl
    have hall := (contributes_lead op).append ho fun _ _ => trivial
    rw [← append_assoc, ← toList_renderUnary] at hall
    refine ⟨renderUnary op text, by rw [render, htext]; rfl, _, hall, fun ls hls => ?_⟩
    obtain ⟨ms, hms, rfl⟩ := Option.map_eq_some_iff.1 hls
    rw [dots_append, hdots ms hms]
    cases op <;> rfl
  | nothing | more => cases hs
  | _ => cases hs; cases he

/-! ## The emitter's rules -/

/-- The text of an expression, or of several with commas between them, is written as meant. -/
def Subject.Written (tokens : List Token) : Subject → Prop
  | .one e => ∃ text, render tokens e = .ok text ∧
      Writes (Follows (endsWhole e)) text.toList (Target.lexemes e) (unglued e)
        (Target.grouped e && unglued e)
  | .all es => ∃ texts, renderAll tokens es = .ok texts ∧
      Writes (Follows true) (", ".intercalate texts).toList (itemLexemes es) (ungluedAll es)
        (groupedAll es && ungluedAll es)

theorem injectedLine?_eq_none (tokens : List Token) {callee : Expr} (h : Produced (.one callee)) :
    injectedLine? tokens callee = none := by
  cases h with
  | @name n hn =>
    have hne : n ≠ "py.print" := by
      rintro rfl
      exact absurd (hn.2 '.' (by decide)) (by decide)
    simp [injectedLine?, hne]
  | _ => rfl

theorem renderAll_cons_ne_nil {texts : List String} (h : renderAll tokens (e :: es) = .ok texts) :
    texts ≠ [] := by
  rw [renderAll] at h
  cases hfirst : render tokens e with
  | error _ => rw [hfirst] at h; cases h
  | ok text =>
    cases hothers : renderAll tokens es with
    | error _ => rw [hfirst, hothers] at h; cases h
    | ok others =>
      rw [hfirst, hothers] at h
      cases h
      exact cons_ne_nil text others

theorem written_unary (op : UnaryOp) (h : (Subject.one e).Written tokens) :
    (Subject.one (.unary op e)).Written tokens := by
  obtain ⟨text, htext, hwrites⟩ := h
  refine ⟨renderUnary op text, by rw [render, htext]; rfl, ?_⟩
  rw [toList_renderUnary]
  refine ((contributes_lead op).writes.append hwrites fun _ _ => trivial).imp (fun _ h => h)
    (fun h => h) fun hg => ?_
  simp only [Target.grouped, Bool.and_eq_true, Bool.true_and] at hg ⊢
  exact ⟨hg.1.1, hg.2⟩

theorem written_field (hx : Wordlike x.toList) (hwhole : endsWhole e = false)
    (h : (Subject.one e).Written tokens) :
    (Subject.one (.attribute e x)).Written tokens := by
  obtain ⟨text, htext, hwrites⟩ := h
  rw [hwhole] at hwrites
  refine ⟨text ++ "." ++ x, by rw [render, htext]; rfl, ?_⟩
  have hlist : (text ++ "." ++ x).toList = text.toList ++ '.' :: x.toList := by simp
  rw [hlist]
  refine (hwrites.append (writes_field hx) fun rest _ => ?_).imp (fun _ h => h) ?_ ?_
  · rintro c ⟨⟩
    exact .inr ⟨rfl, rfl⟩
  · intro hu
    simpa [unglued, hwhole] using hu
  · intro hg
    simp only [Target.grouped, unglued, Bool.and_eq_true] at hg ⊢
    exact ⟨⟨hg.1.1.1, hg.2.1⟩, hg.1.2⟩

theorem written_field_of_endsWhole (tokens : List Token) (h : Produced (.one e))
    (hwhole : endsWhole e = true) (hx : Wordlike x.toList) :
    (Subject.one (.attribute e x)).Written tokens := by
  obtain ⟨text, htext, o, ho, hdots⟩ := contributes_field_of_endsWhole tokens h hwhole hx
  refine ⟨text ++ "." ++ x, by rw [render, htext]; rfl, ?_⟩
  have hlist : (text ++ "." ++ x).toList = text.toList ++ '.' :: x.toList := by simp
  rw [hlist]
  refine ⟨o, ho, .inr ⟨by simp [unglued, hwhole], fun ms hms => ?_⟩⟩
  have hone : dots [.symbol ".", .word x] = 1 := rfl
  rw [hdots ms hms, Target.lexemes, dots_append]
  omega

theorem written_binary {l r : Expr} {op : BinaryOp} (hop : ∀ text, op ≠ .other text)
    (hl : (Subject.one l).Written tokens) (hr : (Subject.one r).Written tokens) :
    (Subject.one (.binary l op r)).Written tokens := by
  obtain ⟨left, hleft, hl⟩ := hl
  obtain ⟨right, hright, hr⟩ := hr
  refine ⟨_, by rw [render, hleft]; simp only [hright]; rfl, ?_⟩
  have hlist : ("(" ++ left ++ " " ++ op.symbol ++ " " ++ right ++ ")").toList =
      '(' :: (left.toList ++ (' ' :: (op.symbol.toList ++ [' ']) ++ right.toList) ++ [')']) := by
    simp
  rw [hlist]
  have hjoin := (contributes_join hop).writes.append hr fun _ _ => trivial
  have hinner := hl.append hjoin fun _ _ => follows_cons _ (by decide)
  refine (hinner.enclose (.inl ⟨rfl, rfl⟩)).imp (fun _ _ => trivial) (fun hu => ?_) fun hg => ?_
  · simpa [unglued] using hu
  · simp only [Target.grouped, unglued, Bool.and_eq_true, Bool.true_and] at hg ⊢
    exact ⟨⟨hg.1.1.1.1, hg.2.1⟩, hg.1.1.1.2, hg.2.2⟩

theorem toList_range (first last : String) :
    ("range(" ++ first ++ ", " ++ last ++ " + 1)").toList =
      "range".toList ++ '(' :: ((first.toList ++ ([',', ' '] ++ (last.toList ++
        (' ' :: (BinaryOp.add.symbol.toList ++ [' ']) ++ (toString 1).toList)))) ++ [')']) := by
  have hstart : "range(".toList = "range".toList ++ ['('] := rfl
  have hend : " + 1)".toList = ' ' :: (BinaryOp.add.symbol.toList ++ [' ']) ++
      (toString 1).toList ++ [')'] := rfl
  have hcomma : ", ".toList = [',', ' '] := rfl
  simp only [String.toList_append, hstart, hend, hcomma, append_assoc, cons_append, nil_append]

theorem written_range {a b : Expr} (ha : (Subject.one a).Written tokens)
    (hb : (Subject.one b).Written tokens) : (Subject.one (.range a b)).Written tokens := by
  obtain ⟨first, hfirst, ha⟩ := ha
  obtain ⟨last, hlast, hb⟩ := hb
  refine ⟨_, by rw [render, hfirst]; simp only [hlast]; rfl, ?_⟩
  rw [toList_range]
  have hadd : ∀ text, BinaryOp.add ≠ .other text := by rintro text ⟨⟩
  have hone := (contributes_join hadd).writes.append (contributes_toString 1).writes fun _ _ => trivial
  have hsum := hb.append hone fun _ _ => follows_cons _ (by decide)
  have hrest := contributes_comma.writes.append hsum fun _ _ => trivial
  have hinner := ha.append hrest fun _ _ => follows_cons _ (by decide)
  have hcallee : Writes (Follows false) "range".toList [.word "range"] true true :=
    writes_word (wordlike_of_isIdentifier rfl)
  refine (hcallee.applied hinner (.inl ⟨rfl, rfl⟩)).imp (fun _ _ => trivial) (fun hu => ?_) fun hg => ?_
  · simpa [unglued] using hu
  · simp only [Target.grouped, unglued, Bool.and_eq_true, Bool.and_true, Bool.true_and] at hg ⊢
    exact ⟨⟨hg.1.1.1, hg.2.1⟩, hg.1.1.2, hg.2.2⟩

theorem written_list (h : (Subject.all es).Written tokens) :
    (Subject.one (.list es)).Written tokens := by
  obtain ⟨texts, htexts, hwrites⟩ := h
  refine ⟨_, by rw [render, htexts]; rfl, ?_⟩
  have hlist : ("[" ++ ", ".intercalate texts ++ "]").toList =
      '[' :: ((", ".intercalate texts).toList ++ [']']) := by simp
  rw [hlist]
  exact (hwrites.enclose (.inr ⟨rfl, rfl⟩)).imp (fun _ _ => trivial) (fun h => h) fun h => h

theorem written_index {i : Expr} (he : (Subject.one e).Written tokens)
    (hi : (Subject.one i).Written tokens) : (Subject.one (.index e i)).Written tokens := by
  obtain ⟨target, htarget, he⟩ := he
  obtain ⟨position, hposition, hi⟩ := hi
  refine ⟨_, by rw [render, htarget]; simp only [hposition]; rfl, ?_⟩
  have hlist : (target ++ "[" ++ position ++ "]").toList =
      target.toList ++ '[' :: (position.toList ++ [']']) := by simp
  rw [hlist]
  refine (he.applied hi (.inr ⟨rfl, rfl⟩)).imp (fun _ _ => trivial) (fun h => h) fun hg => ?_
  simp only [Target.grouped, unglued, Bool.and_eq_true] at hg ⊢
  exact ⟨⟨hg.1.1.1, hg.2.1⟩, hg.1.2, hg.2.2⟩

theorem written_call {c : Expr} (hc : Produced (.one c)) (hcallee : (Subject.one c).Written tokens)
    (hes : (Subject.all es).Written tokens) :
    (Subject.one (.call c es)).Written tokens := by
  obtain ⟨texts, htexts, hes⟩ := hes
  have hlist : ∀ name : String, (name ++ "(" ++ ", ".intercalate texts ++ ")").toList =
      name.toList ++ '(' :: ((", ".intercalate texts).toList ++ [')']) := by simp
  cases halias : alias? c with
  | some name =>
    refine ⟨name ++ "(" ++ ", ".intercalate texts ++ ")", ?_, ?_⟩
    · rw [alias?] at halias
      rw [render, htexts, injectedLine?_eq_none tokens hc, halias]
      rfl
    · rw [hlist, Target.lexemes, halias]
      refine ((writes_alias halias).applied hes (.inl ⟨rfl, rfl⟩)).imp (fun _ _ => trivial)
        (fun hu => ?_) fun hg => ?_
      · simpa [unglued, halias] using hu
      · simp only [Target.grouped, unglued, halias, Bool.and_eq_true] at hg ⊢
        exact ⟨hg.1.1, hg.1.2, hg.2.2⟩
  | none =>
    obtain ⟨callee, htext, hwrites⟩ := hcallee
    refine ⟨callee ++ "(" ++ ", ".intercalate texts ++ ")", ?_, ?_⟩
    · rw [alias?] at halias
      rw [render, htexts, injectedLine?_eq_none tokens hc, halias]
      simp only [htext]
      rfl
    · rw [hlist, Target.lexemes, halias]
      refine (hwrites.applied hes (.inl ⟨rfl, rfl⟩)).imp (fun _ _ => trivial) (fun hu => ?_) fun hg => ?_
      · simpa [unglued, halias] using hu
      · simp only [Target.grouped, unglued, halias, Bool.and_eq_true] at hg ⊢
        exact ⟨⟨hg.1.1.1, by simpa using hg.2.1⟩, hg.1.2, hg.2.2⟩

theorem written_more (he : (Subject.one e).Written tokens) (hes : (Subject.all es).Written tokens) :
    (Subject.all (e :: es)).Written tokens := by
  obtain ⟨text, htext, he⟩ := he
  obtain ⟨texts, htexts, hes⟩ := hes
  refine ⟨text :: texts, by rw [renderAll, htext, htexts]; rfl, ?_⟩
  cases es with
  | nil =>
    -- The last expression may end in a whole number: no point follows a list of expressions.
    have hone : ∀ rest, Follows true rest → Follows (endsWhole e) rest := by
      intro rest hrest c hc
      exact (hrest c hc).imp (fun h => h) fun h => absurd h.2 (by decide)
    cases htexts
    rw [String.intercalate_singleton]
    simp only [itemLexemes, ungluedAll, groupedAll, Bool.and_true]
    exact he.imp hone (fun h => h) fun h => h
  | cons e' es =>
    obtain ⟨text', texts', rfl⟩ := exists_cons_of_ne_nil (renderAll_cons_ne_nil htexts)
    have hlist : (", ".intercalate (text :: text' :: texts')).toList = text.toList ++ ([',', ' '] ++
        (", ".intercalate (text' :: texts')).toList) := by
      rw [String.intercalate_cons_cons, String.toList_append, String.toList_append, append_assoc]
      rfl
    rw [hlist, itemLexemes_cons_cons]
    have hrest := contributes_comma.writes.append hes fun _ _ => trivial
    refine (he.append hrest fun _ _ => follows_cons _ (by decide)).imp (fun _ h => h) ?_ ?_
    · intro hu
      rw [ungluedAll]
      simpa using hu
    · intro hg
      rw [groupedAll, ungluedAll] at hg
      simp only [Bool.and_eq_true, Bool.true_and] at hg ⊢
      exact ⟨⟨hg.1.1, hg.2.1⟩, hg.1.2, hg.2.2⟩

theorem Produced.written (tokens : List Token) {s : Subject} (h : Produced s) :
    s.Written tokens := by
  induction h with
  | literal hv => exact ⟨_, rfl, writes_literal hv⟩
  | @name n hn =>
    refine ⟨n, rfl, (writes_word hn).imp (fun _ h => h) (fun h => h) fun hg => ?_⟩
    rw [Bool.and_eq_true] at hg
    exact hg.1
  | this =>
    exact ⟨"self", rfl, (writes_word (wordlike_of_isIdentifier rfl)).imp (fun _ h => h)
      (fun h => h) fun _ => rfl⟩
  | unary op _ ih => exact written_unary op ih
  | @field t x ht hx ih =>
    cases hwhole : endsWhole t with
    | false => exact written_field hx hwhole ih
    | true => exact written_field_of_endsWhole tokens ht hwhole hx
  | binary hop _ _ ihl ihr => exact written_binary hop ihl ihr
  | range _ _ iha ihb => exact written_range iha ihb
  | list _ ih => exact written_list ih
  | index _ _ iht ihi => exact written_index iht ihi
  | call hc _ ihc ihes => exact written_call hc ihc ihes
  | nothing => exact ⟨[], rfl, (contributes_nil _).writes⟩
  | more _ _ ihe ihes => exact written_more ihe ihes

theorem dots_eq_bare (ls : List Lexeme) : dots ls = dots (bare ls) := (count_filter (by decide)).symm

/-- **Reading back.** The text of an expression reads as the tree that is meant, and as nothing else,
exactly if the expression is grouped and no attribute is glued to a number. -/
theorem Produced.reads_iff (tokens : List Token) (h : Produced (.one e)) :
    ∃ text, render tokens e = .ok text ∧
      ((∀ t, Reads text t ↔ t = shape e) ↔ grouped e = true ∧ unglued e = true) := by
  obtain ⟨text, htext, o, ho, hcases⟩ := h.written tokens
  refine ⟨text, htext, ?_⟩
  have hlex : lex text.toList = o := by
    have := ho [] (follows_nil _)
    rw [append_nil] at this
    rw [this]
    cases o <;> simp
  constructor
  · intro hreads
    obtain ⟨k, ls, hls, hspells⟩ := (hreads (shape e)).2 rfl
    rw [hlex] at hls
    subst hls
    rcases hcases with ⟨heq, hunglued⟩ | ⟨-, hdots⟩
    · cases heq
      exact ⟨h.spells_iff.1 ⟨k, hspells⟩, hunglued⟩
    · have hbare : bare ls = bare (lexemes e) := hspells.bare_eq.trans h.bare_eq.symm
      have := hdots ls rfl
      rw [dots_eq_bare, dots_eq_bare (lexemes e), hbare] at this
      omega
  · rintro ⟨hgrouped, hunglued⟩
    rcases hcases with ⟨rfl, -⟩ | ⟨hgood, -⟩
    · have hreads : Reads text (shape e) := ⟨_, _, hlex, h.spells hgrouped⟩
      refine fun t => ⟨fun ht => hreads.unique ht, ?_⟩
      rintro rfl
      exact hreads
    · rw [hgrouped, hunglued] at hgood
      cases hgood

end ScriptWorkbench.Target
