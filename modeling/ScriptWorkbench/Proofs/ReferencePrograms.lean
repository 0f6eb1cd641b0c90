/-
Programs of the reference grammar, as the parser reads them.

A word of the reference grammar and the token that the scanner makes of it have the same kind, so a derivation
over words carries over, rule by rule, to one over tokens. **A text of the reference grammar without `set`, as
far as the language supports it, is therefore read as a whole, and its functions are those of the derivation**
(`readsWhole_of_derivation`). The grammar as it was written down, with `set`, has texts that are read
otherwise or not at all.
-/
import ScriptWorkbench.Proofs.ReferenceTexts
import ScriptWorkbench.Proofs.WholePrograms

namespace ScriptWorkbench.Reference

open Ast Token List String
open Grammar (Phrase Part Operator PrefixOperator)

variable {us : List Word} {ts : List Token} {t : Token} {w : Word}

/-! ## Tokens of words -/

/-- The token is that of the word, which is not too long for a whole number. -/
structure Stands (w : Word) (t : Token) : Prop where
  content : t.content = meaning w
  sized : w.1 = .number → '.' ∉ w.2 → w.2.length ≤ Number.maxDigits

/-- The tokens are those of the words. -/
inductive Rendered : List Word → List Token → Prop where
  | nil : Rendered [] []
  | cons {w : Word} {t : Token} {ws : List Word} {ts : List Token} :
      Stands w t → Rendered ws ts → Rendered (w :: ws) (t :: ts)

theorem Stands.kind (h : Stands w t) : t.kind = w.1 := congrArg Prod.fst h.content

theorem Stands.of_kind (h : Stands w t) {kind : Kind} (hw : w.1 = kind) :
    t.kind = kind :=
  h.kind.trans hw

theorem Stands.name {w : Word} {t : Token} (h : Stands w t) (hw : w.1 = .identifier) :
    t.value = ofList w.2 := by
  have hvalue := congrArg Prod.snd h.content
  have hne : ¬w.1 = .text := by rw [hw]; decide
  rwa [meaning, if_neg hne] at hvalue

theorem Stands.numeral {cs : List Char} (h : Stands (.number, cs) t) :
    t.value = ofList cs :=
  congrArg Prod.snd h.content

theorem Stands.text {body : List Char} {t : Token} (h : Stands (.text, '"' :: (body ++ ['"'])) t) :
    t.value = ofList (spelled body) := by
  have hvalue : t.value = (meaning (.text, '"' :: (body ++ ['"']))).2 := congrArg Prod.snd h.content
  rwa [meaning, tail_cons, dropLast_concat] at hvalue

theorem Rendered.split {vs : List Word} (h : Rendered (us ++ vs) ts) :
    ∃ us' vs', ts = us' ++ vs' ∧ Rendered us us' ∧ Rendered vs vs' := by
  induction us generalizing ts with
  | nil => exact ⟨[], ts, rfl, .nil, h⟩
  | cons w us ih =>
    obtain _ | ⟨hw, h⟩ := h
    obtain ⟨us', vs', rfl, hus, hvs⟩ := ih h
    exact ⟨_ :: us', vs', rfl, .cons hw hus, hvs⟩

theorem Rendered.split_cons {vs : List Word} (h : Rendered (us ++ w :: vs) ts) :
    ∃ us' t vs', ts = us' ++ t :: vs' ∧ Rendered us us' ∧ Stands w t ∧ Rendered vs vs' := by
  obtain ⟨us', _, rfl, hus, _ | ⟨hw, hvs⟩⟩ := h.split
  exact ⟨us', _, _, rfl, hus, hw, hvs⟩

theorem Rendered.split_last (h : Rendered (us ++ [w]) ts) :
    ∃ us' t, ts = us' ++ [t] ∧ Rendered us us' ∧ Stands w t := by
  obtain ⟨us', t, _, rfl, hus, hw, ⟨⟩⟩ := h.split_cons
  exact ⟨us', t, rfl, hus, hw⟩

/-! ## Derivations -/

theorem numberLiteral_whole {c : Char} {ds : List Char} (h : ∀ d ∈ c :: ds, d.isDigit = true)
    (hlen : (c :: ds).length ≤ Number.maxDigits) :
    Parser.numberLiteral (ofList (c :: ds)) = .ok (.int (Number.digitsValue (c :: ds))) := by
  have hpoint : ¬(c :: ds).contains '.' = true := by
    rw [contains_iff_mem]
    intro hmem
    exact absurd (h '.' hmem) (by decide)
  rw [Parser.numberLiteral, toList_ofList, if_neg hpoint, Number.readInt_ofList h hlen]
  rfl

theorem numberLiteral_decimal {c : Char} {ds es : List Char} (h : ∀ d ∈ c :: ds, d.isDigit = true)
    (hes : ∀ d ∈ es, d.isDigit = true) :
    Parser.numberLiteral (ofList (c :: ds ++ '.' :: es)) =
      .ok (.real (.ofDecimal false (Number.digitsValue (c :: ds ++ es)) (-es.length))) := by
  have hpoint : (c :: ds ++ '.' :: es).contains '.' = true := by simp
  rw [Parser.numberLiteral, toList_ofList, if_pos hpoint, Number.readReal_ofList h hes]
  rfl

/-- **Expressions carry over.** -/
theorem Derives.rendered {ph : Phrase} (h : Derives ph us) (hts : Rendered us ts) :
    Grammar.Derives ph ts := by
  induction h generalizing ts with
  | signed _ ih => exact .signed (ih hts)
  | tighter hk _ ih => exact .tighter hk (ih hts)
  | applied _ ih => exact .applied (ih hts)
  | primary _ ih => exact .primary (ih hts)
  | operator _ hop _ ihl ihr =>
    obtain ⟨us, t, vs, rfl, hus, ht, hvs⟩ := hts.split_cons
    exact .operator (ihl hus) (ht.kind ▸ hop) (ihr hvs)
  | sign hop _ ih =>
    obtain _ | ⟨ht, hus⟩ := hts
    exact .sign (ht.kind ▸ hop) (ih hus)
  | callNothing _ hw hx ih =>
    obtain ⟨us, t, _, rfl, hus, ht, _ | ⟨hu, ⟨⟩⟩⟩ := hts.split_cons
    exact .callNothing (ih hus) (ht.of_kind hw) (hu.of_kind hx)
  | call _ hw _ hx ih ihes =>
    obtain ⟨us, t, _, rfl, hus, ht, hrest⟩ := hts.split_cons
    obtain ⟨vs, u, rfl, hvs, hu⟩ := hrest.split_last
    exact .call (ih hus) (ht.of_kind hw) (ihes hvs) (hu.of_kind hx)
  | field _ hw hx ih =>
    obtain ⟨us, t, _, rfl, hus, ht, _ | ⟨hu, ⟨⟩⟩⟩ := hts.split_cons
    rw [← hu.name hx]
    exact .field (ih hus) (ht.of_kind hw) (hu.of_kind hx)
  | whole hds =>
    obtain _ | ⟨ht, ⟨⟩⟩ := hts
    refine .number ht.kind ?_
    have hlen := ht.sized rfl fun hmem => absurd (hds '.' hmem) (by decide)
    rw [ht.numeral, numberLiteral_whole hds hlen]
  | decimal hds _ hes =>
    obtain _ | ⟨ht, ⟨⟩⟩ := hts
    refine .number ht.kind ?_
    rw [ht.numeral, numberLiteral_decimal hds hes]
  | text =>
    obtain _ | ⟨ht, ⟨⟩⟩ := hts
    rw [← ht.text]
    exact .text ht.kind
  | true hw =>
    obtain _ | ⟨ht, ⟨⟩⟩ := hts
    exact .true (ht.of_kind hw)
  | false hw =>
    obtain _ | ⟨ht, ⟨⟩⟩ := hts
    exact .false (ht.of_kind hw)
  | name hw =>
    obtain _ | ⟨ht, ⟨⟩⟩ := hts
    rw [← ht.name hw]
    exact .name (ht.of_kind hw)
  | group hw _ hx ih =>
    obtain _ | ⟨ht, hrest⟩ := hts
    obtain ⟨us, u, rfl, hus, hu⟩ := hrest.split_last
    exact .group (ht.of_kind hw) (ih hus) (hu.of_kind hx)
  | one _ ih => exact .one (ih hts)
  | more _ hw _ ih ihes =>
    obtain ⟨us, t, vs, rfl, hus, ht, hvs⟩ := hts.split_cons
    exact .more (ih hus) (ht.of_kind hw) (ihes hvs)

theorem Source.rendered {e : Expr} (h : Source e us) (hts : Rendered us ts) :
    Grammar.Source e ts := by
  cases h with
  | value he => exact .value (he.rendered hts)
  | range hf hw hl =>
    obtain ⟨us, t, vs, rfl, hus, ht, hvs⟩ := hts.split_cons
    exact .range (hf.rendered hus) (ht.of_kind hw) (hl.rendered hvs)

/-- **Statements carry over.** -/
theorem Forms.rendered {part : Part} (h : Forms [] part us) (hts : Rendered us ts) :
    Grammar.Forms part ts := by
  induction h generalizing ts with
  | letVar hw hn hq he hs =>
    obtain _ | ⟨ht, _ | ⟨hname, _ | ⟨heq, hrest⟩⟩⟩ := hts
    obtain ⟨us, semi, rfl, hus, hsemi⟩ := hrest.split_last
    rw [← hname.name hn]
    exact .letVar (ht.of_kind hw) (hname.of_kind hn) (heq.of_kind hq) (he.rendered hus) (hsemi.of_kind hs)
  | assign hws hn hq he hs =>
    obtain rfl := map_eq_nil_iff.1 hws
    obtain _ | ⟨hname, _ | ⟨heq, hrest⟩⟩ := hts
    obtain ⟨us, semi, rfl, hus, hsemi⟩ := hrest.split_last
    rw [← hname.name hn]
    exact .assign (hname.of_kind hn) (heq.of_kind hq) (he.rendered hus) (hsemi.of_kind hs)
  | returnNothing hw hs =>
    obtain _ | ⟨ht, _ | ⟨hsemi, ⟨⟩⟩⟩ := hts
    exact .returnNothing (ht.of_kind hw) (hsemi.of_kind hs)
  | returnValue hw he hs =>
    obtain _ | ⟨ht, hrest⟩ := hts
    obtain ⟨us, semi, rfl, hus, hsemi⟩ := hrest.split_last
    exact .returnValue (ht.of_kind hw) (he.rendered hus) (hsemi.of_kind hs)
  | cond hw he _ _ ihb iho =>
    obtain _ | ⟨ht, hrest⟩ := hts
    obtain ⟨us, _, rfl, hus, hrest⟩ := hrest.split
    obtain ⟨vs, xs, rfl, hvs, hxs⟩ := hrest.split
    exact .cond (ht.of_kind hw) (he.rendered hus) (ihb hvs) (iho hxs)
  | forEach hw hn hi he _ ihb =>
    obtain _ | ⟨ht, _ | ⟨hname, _ | ⟨hwithin, hrest⟩⟩⟩ := hts
    obtain ⟨us, vs, rfl, hus, hvs⟩ := hrest.split
    rw [← hname.name hn]
    exact .forEach (ht.of_kind hw) (hname.of_kind hn) (hwithin.of_kind hi) (he.rendered hus) (ihb hvs)
  | expr he hs =>
    obtain ⟨us, semi, rfl, hus, hsemi⟩ := hts.split_last
    exact .expr (he.rendered hus) (hsemi.of_kind hs)
  | nothing =>
    obtain ⟨⟩ := hts
    exact .nothing
  | elseBlock hw _ ih =>
    obtain _ | ⟨ht, hus⟩ := hts
    exact .elseBlock (ht.of_kind hw) (ih hus)
  | block hw _ ih =>
    obtain _ | ⟨ht, hus⟩ := hts
    exact .block (ht.of_kind hw) (ih hus)
  | close hw =>
    obtain _ | ⟨ht, ⟨⟩⟩ := hts
    exact .close (ht.of_kind hw)
  | cons _ _ ihs ihss =>
    obtain ⟨us, vs, rfl, hus, hvs⟩ := hts.split
    exact .cons (ihs hus) (ihss hvs)

theorem Names.rendered {ns : List String} (h : Names ns us) (hts : Rendered us ts) :
    Grammar.Names ns ts := by
  induction h generalizing ts with
  | one hw =>
    obtain _ | ⟨ht, ⟨⟩⟩ := hts
    rw [← ht.name hw]
    exact .one (ht.of_kind hw)
  | more hw hx _ ih =>
    obtain _ | ⟨ht, _ | ⟨hu, hus⟩⟩ := hts
    rw [← ht.name hw]
    exact .more (ht.of_kind hw) (hu.of_kind hx) (ih hus)

theorem Parameters.rendered {ns : List String} (h : Parameters ns us) (hts : Rendered us ts) :
    Grammar.Parameters ns ts := by
  cases h with
  | nothing =>
    obtain ⟨⟩ := hts
    exact .nothing
  | names hns => exact .names (hns.rendered hts)

theorem Declares.rendered {f : Function} (h : Declares [] f us) (hts : Rendered us ts) :
    Grammar.Makes (.function f) ts := by
  cases h with
  | function hw hn hl hp hr hb =>
    obtain _ | ⟨ht, _ | ⟨hname, _ | ⟨hleft, hrest⟩⟩⟩ := hts
    obtain ⟨us, t, vs, rfl, hus, hright, hvs⟩ := hrest.split_cons
    rw [← hname.name hn]
    exact .function (ht.of_kind hw) (hname.of_kind hn) (hleft.of_kind hl) (hp.rendered hus)
      (hright.of_kind hr) (hb.rendered hvs)
  | mainBlock hw hb =>
    obtain _ | ⟨ht, hus⟩ := hts
    exact .mainBlock (ht.of_kind hw) (hb.rendered hus)

/-- **Programs carry over:** the tokens fall into the functions. -/
theorem Composes.rendered {fs : List Function} (h : Composes [] fs us) (hts : Rendered us ts) :
    ∃ pieces, Grammar.Piece.join pieces = ts ∧ Grammar.Piece.program pieces = ⟨fs, [], []⟩ := by
  induction h generalizing ts with
  | one hf => exact ⟨[⟨_, ts, hf.rendered hts⟩], by simp [Grammar.Piece.join], rfl⟩
  | more hf _ ih =>
    obtain ⟨us, vs, rfl, hus, hvs⟩ := hts.split
    obtain ⟨pieces, rfl, hprogram⟩ := ih hvs
    refine ⟨⟨_, us, hf.rendered hus⟩ :: pieces, by simp [Grammar.Piece.join], ?_⟩
    have hcons : Grammar.Piece.program (⟨_, us, hf.rendered hus⟩ :: pieces) =
      (Grammar.Item.function _).addTo (Grammar.Piece.program pieces) := rfl
    rw [hcons, hprogram]
    rfl

/-! ## Sources -/

theorem rendered_of_supported {ps : List Piece} (hlexed : Lexed [] ps) (h : Supported ps)
    (hts : ts.map content = (words ps).map meaning) : Rendered (words ps) ts := by
  induction ps generalizing ts with
  | nil =>
    obtain rfl := map_eq_nil_iff.1 hts
    exact .nil
  | cons p ps ih =>
    obtain ⟨hmakes, hlexed⟩ := hlexed
    obtain ⟨hp, hps⟩ := h
    cases hkind : p.rule.kind? with
    | none =>
      rw [words_cons_of_skipped hkind] at hts ⊢
      exact ih hlexed hps hts
    | some kind =>
      rw [words_cons_of_word hkind] at hts ⊢
      obtain ⟨t, us, rfl, ht, hus⟩ := map_eq_cons_iff.1 hts
      refine .cons ⟨ht, ?_⟩ (ih hlexed hps hus)
      rintro rfl hpoint
      -- only one rule makes numbers
      have hall : ∀ r ∈ rules [], r.kind? = some .number → r = .number := by decide +kernel
      rw [Piece.Supported, hall _ hmakes.1 hkind] at hp
      exact (hp hpoint).1

/-- **The language has the texts of the reference grammar,** the one without `set`. A text that the grammar
derives and that keeps to the names, escapes, numbers and line ends of the language is accepted, with
every token used, and the program consists of the functions of the derivation in order. -/
theorem readsWhole_of_derivation (source : String) (ps : List Piece) (fs : List Function)
    (h : Derivation [] source ps fs) (hsupported : Supported ps) :
    ReadsWhole source ⟨fs, [], []⟩ := by
  have htiles := (tiles_of_lexed h.lexed hsupported h.composes.slashesApart).1
  rw [h.joined] at htiles
  obtain ⟨ts, hscan, hts⟩ := scanFrom_of_tiles htiles .start
  obtain ⟨us, _, rfl, hus, hend⟩ := List.map_eq_append_iff.1 hts
  obtain ⟨eof, _, rfl, heof, hnil⟩ := List.map_eq_cons_iff.1 hend
  obtain rfl := List.map_eq_nil_iff.1 hnil
  obtain ⟨pieces, rfl, hprogram⟩ := h.composes.rendered (rendered_of_supported h.lexed hsupported hus)
  have hkind := congrArg Prod.fst heof
  rw [← hprogram]
  exact readsWhole_of_scan hscan hkind

/-- A function with an assignment, a division and a comment. -/
theorem readsWhole_of_derivation_halving :
    ReadsWhole "func f(n)\x7bn=n/2;# up\n\x7d"
      ⟨[⟨"f", ["n"], .block [.assign "n" (.binary (.name "n") .divide (.literal (.int 2)))]⟩], [], []⟩ := by
  have hn : String.ofList ['n'] = "n" := by decide +kernel
  have hf : String.ofList ['f'] = "f" := by decide +kernel
  rw [← hn, ← hf]
  refine readsWhole_of_derivation _ [.ofFixed .funcWord "func", ⟨.blanks, [' ']⟩, ⟨.name, ['f']⟩,
    .ofFixed .leftParen "(", ⟨.name, ['n']⟩, .ofFixed .rightParen ")", .ofFixed .leftBrace "\x7b",
    ⟨.name, ['n']⟩, .ofFixed .equal "=", ⟨.name, ['n']⟩, .ofFixed .slash "/", ⟨.number, ['2']⟩,
    .ofFixed .semicolon ";", ⟨.comment, ['#', ' ', 'u', 'p']⟩, ⟨.blanks, ['\n']⟩,
    .ofFixed .rightBrace "\x7d"] _ ⟨by decide +kernel, by decide +kernel, ?_⟩ (by decide +kernel)
  have hname := Derives.name (w := (.identifier, ['n'])) rfl
  have hhalf := Derives.operator (w := (.slash, "/".toList)) (hname.of_primary (by decide)) .divide
    ((@Derives.whole '2' [] (List.forall_mem_singleton.2 (by decide))).of_primary (by decide))
  have hassign : Forms [] (.statement _) ([] ++ (.identifier, ['n']) :: (.equal, "=".toList) ::
      (_ ++ [(.semicolon, ";".toList)])) :=
    .assign rfl rfl rfl (hhalf.looser (by decide) (by decide)) rfl
  have hclose : Forms [] (.closing []) [(.rightBrace, "\x7d".toList)] := .close rfl
  have hblock : Forms [] (.block _) ((.leftBrace, "\x7b".toList) :: _) := .block rfl (.cons hassign hclose)
  have hfunction : Declares [] _ ((.funcWord, "func".toList) :: (.identifier, ['f']) ::
      (.leftParen, "(".toList) :: (_ ++ (.rightParen, ")".toList) :: _)) :=
    .function rfl rfl rfl (.names (.one (w := (.identifier, ['n'])) rfl)) rfl hblock
  exact .one hfunction

/-! ## Texts that are read otherwise -/

def inMain (ps : List Piece) : List Piece :=
  .ofFixed .mainWord "main" :: .ofFixed .leftBrace "\x7b" :: (ps ++ [.ofFixed .rightBrace "\x7d"])

theorem composes_inMain {lead : List (Kind × String)} {s : Stmt} {ps : List Piece}
    (h : Forms lead (.statement s) (words ps)) :
    Composes lead [⟨"main", [], .block [s]⟩] (words (inMain ps)) := by
  have hwords : words (inMain ps) = (.mainWord, "main".toList) :: (.leftBrace, "\x7b".toList) ::
      (words ps ++ [(.rightBrace, "\x7d".toList)]) := by
    simp [inMain, words, Piece.ofFixed, Rule.kind?]
  rw [hwords]
  exact .one (.mainBlock rfl (.block rfl (.cons h (.close rfl))))

theorem not_readsWhole {source : String} {p : Program} (h : (readProgram source).toOption.isNone) :
    ¬ReadsWhole source p := by
  rintro ⟨ts, hread, -⟩
  rw [hread] at h
  cases h

def Misread (source : String) : Prop :=
  ∃ ps fs, Derivation [setWord] source ps fs ∧ ¬ReadsWhole source ⟨fs, [], []⟩

theorem derived_not_read {source : String} {s : Stmt} {ps : List Piece}
    (h : Forms [setWord] (.statement s) (words ps)) (hjoined : joined (inMain ps) = source.toList)
    (hlexed : Lexed [setWord] (inMain ps))
    (hread : ¬ReadsWhole source ⟨[⟨"main", [], .block [s]⟩], [], []⟩) : Misread source :=
  ⟨inMain ps, _, ⟨hjoined, hlexed, composes_inMain h⟩, hread⟩

/-- **The grammar with `set` derives texts that are not read so:** an assignment with `set`, a name that is
a keyword, an escape of another letter, a point that touches a whole number and a carriage return that
ends a comment. -/
theorem documented_texts_not_read :
    Misread "main\x7bset x=1;\x7d" ∧ Misread "main\x7btry;\x7d" ∧ Misread "main\x7b\"\\d\";\x7d" ∧
      Misread "main\x7b1.a;\x7d" ∧ Misread "main\x7b#\ra;\n\x7d" := by
  have hexpr {e : Expr} {us : List Word} (h : Derives (.applied e) us) :
      Forms [setWord] (.statement (.expr e)) (us ++ [(.semicolon, ";".toList)]) :=
    .expr (.looser (by decide) (Nat.le_refl _) (.signed (.applied h))) rfl
  have hone := @Derives.whole '1' [] (List.forall_mem_singleton.2 (by decide))
  have ha := Derives.name (w := (.identifier, ['a'])) rfl
  refine ⟨?_, ?_, ?_, ?_, ?_⟩
  · have hassign : Forms [setWord] (.statement _) ([(.other "SET", "set".toList)] ++
        (.identifier, ['x']) :: (.equal, "=".toList) :: (_ ++ [(.semicolon, ";".toList)])) :=
      .assign rfl rfl rfl (hone.of_primary (by decide)) rfl
    exact @derived_not_read _ _ [.ofFixed (.other "SET") "set", ⟨.blanks, [' ']⟩, ⟨.name, ['x']⟩,
      .ofFixed .equal "=", ⟨.number, ['1']⟩, .ofFixed .semicolon ";"] hassign (by decide +kernel)
      (by decide +kernel) (not_readsWhole (by decide +kernel))
  · have htry := Derives.name (w := (.identifier, "try".toList)) rfl
    exact @derived_not_read _ _ [⟨.name, "try".toList⟩, .ofFixed .semicolon ";"] (hexpr (.primary htry))
      (by decide +kernel) (by decide +kernel) (not_readsWhole (by decide +kernel))
  · have htext := @Derives.text ['\\', 'd']
    exact @derived_not_read _ _ [⟨.text, ['"', '\\', 'd', '"']⟩, .ofFixed .semicolon ";"]
      (hexpr (.primary htext)) (by decide +kernel) (by decide +kernel)
      (not_readsWhole (by decide +kernel))
  · have hfield : Derives _ ([_] ++ [(.dot, ".".toList), (.identifier, ['a'])]) :=
      .field (.primary hone) rfl rfl
    exact @derived_not_read _ _ [⟨.number, ['1']⟩, .ofFixed .dot ".", ⟨.name, ['a']⟩,
      .ofFixed .semicolon ";"] (hexpr hfield) (by decide +kernel) (by decide +kernel)
      (not_readsWhole (by decide +kernel))
  · refine @derived_not_read _ _ [⟨.comment, ['#']⟩, ⟨.blanks, ['\r']⟩, ⟨.name, ['a']⟩,
      .ofFixed .semicolon ";", ⟨.blanks, ['\n']⟩] (hexpr (.primary ha)) (by decide +kernel)
      (by decide +kernel) ?_
    -- the block is read without the statement
    have hscan : scan "main\x7b#\ra;\n\x7d" = .ok [⟨.mainWord, "main", ⟨1, 1⟩⟩,
        ⟨.leftBrace, "\x7b", ⟨1, 5⟩⟩, ⟨.rightBrace, "\x7d", ⟨2, 1⟩⟩, ⟨.endOfInput, "", ⟨2, 2⟩⟩] :=
      eq_ok_of_toOption (by decide +kernel)
    have hempty := readProgram_of_parse (p := ⟨[⟨"main", [], .block []⟩], [], []⟩) hscan rfl
    rintro ⟨ts, hread, -⟩
    cases hread.symm.trans hempty

end ScriptWorkbench.Reference
