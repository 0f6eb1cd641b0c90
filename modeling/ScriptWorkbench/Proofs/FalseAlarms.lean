/-
What the editors find wrong with scripts that are right.

The language has no colon at all, and its statements may be spread over rows, so both editors raise alarms on
scripts that are read as a whole (`no_alarm_iff`). The brackets of the grammar are closed (`Piece.closed`), so
that only brackets in comments and strings can be marked.
-/
import ScriptWorkbench.Proofs.ScriptRows
import ScriptWorkbench.Studio.CodeView

namespace ScriptWorkbench

open Ast Token Studio List

variable {source : String} {c : Char} {ss : List Slice}

/-! ## Brackets of programs -/

namespace Grammar

variable {kind : Kind}

def closingKind : Kind → Option Kind
  | .leftParen => some .rightParen
  | .leftBracket => some .rightBracket
  | .leftBrace => some .rightBrace
  | _ => none

/-- **Behind every opening bracket stands its counterpart.** -/
def Closed : List Token → Prop
  | [] => True
  | t :: us => (∀ k, closingKind t.kind = some k → ∃ u ∈ us, u.kind = k) ∧ Closed us

section Closed

variable {t u : Token} {us vs ws : List Token}

theorem Closed.append (h : Closed us) (h' : Closed vs) : Closed (us ++ vs) := by
  induction us with
  | nil => exact h'
  | cons t us ih =>
    refine ⟨fun k hk => ?_, ih h.2⟩
    obtain ⟨u, hu, hkind⟩ := h.1 k hk
    exact ⟨u, mem_append_left _ hu, hkind⟩

theorem Closed.plain (ht : t.kind = kind) (hkind : closingKind kind = none) (h : Closed us) :
    Closed (t :: us) := by
  refine ⟨fun k hk => ?_, h⟩
  rw [ht, hkind] at hk
  cases hk

theorem Closed.enclosed {l r : Kind} (ht : t.kind = l) (hu : u.kind = r) (hclose : closingKind l = some r)
    (hr : closingKind r = none) (hvs : Closed vs) (hws : Closed ws) : Closed (t :: (vs ++ u :: ws)) := by
  refine ⟨fun k hk => ⟨u, by simp, ?_⟩, hvs.append (hws.plain hu hr)⟩
  rw [ht, hclose] at hk
  exact hu.trans (Option.some.inj hk)

theorem Operator.not_closing {j : Nat} {op : BinaryOp} (h : Operator j kind op) :
    closingKind kind = none := by
  cases h <;> rfl

theorem Derives.closed {ph : Phrase} (h : Derives ph us) : Closed us := by
  have hnil : Closed [] := trivial
  -- on the derivation: brackets come in pairs, around phrases that are closed themselves
  induction h with
  | signed _ ih | tighter _ _ ih | applied _ ih | primary _ ih | one _ ih => exact ih
  | operator _ hop _ ihl ihr => exact ihl.append (ihr.plain rfl hop.not_closing)
  | sign hop _ ih =>
    refine ih.plain rfl ?_
    generalize Token.kind _ = kind at hop
    cases hop <;> rfl
  | callNothing _ ht hu ih => exact ih.append (hnil.enclosed ht hu rfl rfl hnil)
  | call _ ht _ hu ih ihes => exact ih.append (ihes.enclosed ht hu rfl rfl hnil)
  | field _ ht hu ih => exact ih.append ((hnil.plain hu rfl).plain ht rfl)
  | index _ ht _ hu ih ihi => exact ih.append (ihi.enclosed ht hu rfl rfl hnil)
  | number ht _ | text ht | true ht | false ht | name ht | this ht => exact hnil.plain ht rfl
  | group ht _ hu ih | list ht _ hu ih => exact ih.enclosed ht hu rfl rfl hnil
  | listNothing ht hu => exact hnil.enclosed ht hu rfl rfl hnil
  | more _ ht _ ih ihes => exact ih.append (ihes.plain ht rfl)

theorem Source.closed {e : Expr} (h : Source e us) : Closed us := by
  cases h with
  | value he => exact he.closed
  | range ha ht hb => exact ha.closed.append (hb.closed.plain ht rfl)

theorem Forms.exists_brace {ss : List Stmt} (h : Forms (.closing ss) us) :
    ∃ u ∈ us, u.kind = .rightBrace := by
  induction ss generalizing us with
  | nil =>
    cases h with
    | close ht => exact ⟨_, mem_singleton_self _, ht⟩
  | cons s ss ih =>
    cases h with
    | cons _ hss =>
      obtain ⟨u, hu, hkind⟩ := ih hss
      exact ⟨u, mem_append_right _ hu, hkind⟩

theorem Caught.closed {name : Option String} (h : Caught name us) : Closed us := by
  cases h with
  | nothing => trivial
  | error ht => exact Closed.plain ht rfl trivial

theorem Forms.closed {part : Part} (h : Forms part us) : Closed us := by
  have hnil : Closed [] := trivial
  induction h with
  | letVar ht hn hq he hs =>
    exact (((he.closed.append (hnil.plain hs rfl)).plain hq rfl).plain hn rfl).plain ht rfl
  | assign hn hq he hs => exact ((he.closed.append (hnil.plain hs rfl)).plain hq rfl).plain hn rfl
  | returnNothing ht hs => exact (hnil.plain hs rfl).plain ht rfl
  | returnValue ht he hs => exact (he.closed.append (hnil.plain hs rfl)).plain ht rfl
  | cond ht he _ _ ihb iho => exact (he.closed.append (ihb.append iho)).plain ht rfl
  | forEach ht hn hi he _ ihb => exact (((he.closed.append ihb).plain hi rfl).plain hn rfl).plain ht rfl
  | loop ht he _ ihb => exact (he.closed.append ihb).plain ht rfl
  | guarded ht _ hu hc _ ihb ihh => exact (ihb.append ((hc.closed.append ihh).plain hu rfl)).plain ht rfl
  | expr he hs => exact he.closed.append (hnil.plain hs rfl)
  | nothing => exact hnil
  | elseBlock ht _ ih => exact ih.plain ht rfl
  | elseIf ht hu _ ih => exact (ih.plain hu rfl).plain ht rfl
  | block ht hss ih =>
    -- the statements of a block end with its brace, which is no part of the rule
    refine ⟨fun k hk => ?_, ih⟩
    rw [ht] at hk
    cases hk
    exact hss.exists_brace
  | close ht => exact hnil.plain ht rfl
  | cons _ _ ihs ihss => exact ihs.append ihss

theorem Parameters.closed {ns : List String} (h : Parameters ns us) : Closed us := by
  cases h with
  | nothing => trivial
  | names hns =>
    induction hns with
    | one ht => exact Closed.plain ht rfl trivial
    | more ht hu _ ih => exact (ih.plain hu rfl).plain ht rfl

theorem Parent.closed {parent : Option String} (h : Parent parent us) : Closed us := by
  cases h with
  | nothing => trivial
  | extending ht hu =>
    have hnil : Closed [] := trivial
    exact (hnil.plain hu rfl).plain ht rfl

theorem Makes.closed {item : Item} (h : Makes item us) : Closed us := by
  cases h with
  | function ht hn hl hp hr hb =>
    exact ((hp.closed.enclosed hl hr rfl rfl hb.closed).plain hn rfl).plain ht rfl
  | mainBlock ht hb => exact hb.closed.plain ht rfl
  | declaration ht hn hp hb => exact ((hp.closed.append hb.closed).plain hn rfl).plain ht rfl
  | statement hs => exact hs.closed

theorem Piece.closed (pieces : List Piece) : Closed (Piece.join pieces) := by
  induction pieces with
  | nil => trivial
  | cons piece pieces ih => exact piece.makes.closed.append ih

theorem Closed.behind {ks ls : List Kind} {k : Kind} (h : Closed us)
    (hus : us.map Token.kind = ks ++ kind :: ls) (hkind : closingKind kind = some k) : k ∈ ls := by
  induction us generalizing ks with
  | nil => exact absurd hus (by simp)
  | cons t us ih =>
    rcases ks with _ | ⟨k', ks⟩
    · obtain ⟨ht, hls⟩ := cons.inj hus
      obtain ⟨u, hu, hk⟩ := h.1 k (ht ▸ hkind)
      rw [← hls, ← hk]
      exact mem_map_of_mem hu
    · exact ih h.2 (cons.inj hus).2

theorem exists_of_closingKind {k : Kind} (h : closingKind kind = some k) :
    ∃ c d, (c, kind) ∈ symbols ∧ (d, k) ∈ symbols ∧ Marks.closingOf c = some d := by
  unfold closingKind at h
  split at h
  · cases h
    exact ⟨'(', ')', by decide, by decide, rfl⟩
  · cases h
    exact ⟨'[', ']', by decide, by decide, rfl⟩
  · cases h
    exact ⟨'\x7b', '\x7d', by decide, by decide, rfl⟩
  · cases h

end Closed

end Grammar

theorem ReadsWhole.closing_of_tokenAt {p : Program} (h : ReadsWhole source p)
    (hss : Slices source ss) {n : Nat} {s : Slice} (hs : tokenAt ss n = some s) {k : Kind}
    (hk : Grammar.closingKind s.kind = some k) {d : Char} (hc : source.toList[n]? = some c)
    (hd : Marks.closingOf c = some d) :
    d ∈ source.toList.drop n := by
  obtain ⟨c', d', hopen, hclose, hpair⟩ := Grammar.exists_of_closingKind hk
  obtain ⟨before, behind, rfl, hdrop⟩ := exists_of_tokenAt hs
  obtain ⟨pieces, eof, hscan, heof, rfl⟩ := h.exists_pieces
  obtain ⟨ts, hts, hwords⟩ := hss.words
  cases hscan.symm.trans hts
  -- the closing token, among those behind the opening one
  have hclosed : Grammar.Closed (Grammar.Piece.join pieces ++ [eof]) :=
    (Grammar.Piece.closed pieces).append (Grammar.Closed.plain heof rfl trivial)
  have hkinds : (Grammar.Piece.join pieces ++ [eof]).map Token.kind =
      before.map Slice.kind ++ s.kind :: behind.map Slice.kind := by
    have hfirst := congrArg (map Prod.fst) hwords.symm
    rw [map_map, map_map] at hfirst
    exact hfirst.trans map_append
  obtain ⟨s', hs', hk'⟩ := mem_map.1 (hclosed.behind hkinds hk)
  obtain ⟨between, rest, rfl⟩ := append_of_mem hs'
  -- both are written as symbols
  have hne : ∀ x ∈ symbols, x.2 ≠ .endOfInput := by decide
  have hsliced := hss.sliced.drop
  have htext := (hsliced.lexeme (hne _ hopen)).symbol hopen
  have htext' := (hsliced.tail.drop.lexeme (hk' ▸ hne _ hclose)).symbol (hk' ▸ hclose)
  rw [hss.text, htext] at hdrop
  have hsame : c = c' := by
    rw [← head?_drop, hdrop] at hc
    exact (Option.some.inj hc).symm
  rw [hsame, hpair] at hd
  rw [hdrop, ← Option.some.inj hd, joined_append, joined, htext']
  simp

/-! ## Headers without a colon -/

theorem endsWith_colon_iff (cs : List Char) :
    Text.endsWith (String.ofList cs) ":" = true ↔ cs.getLast? = some ':' := by
  simp only [← head?_reverse, Text.endsWith, String.toList_ofList, Text.isSome_dropPrefix?_iff]
  generalize cs.reverse = ds
  cases ds <;> simp [eq_comm]

theorem headerMessage?_eq_none_iff (line : List Char) :
    (∀ h ∈ Lint.headers, Lint.headerMessage? (String.ofList line) h = none) ↔
      ((∃ w ∈ headerTokens, w.2.toList ++ [' '] <+: Marks.trimmed line) →
        (Marks.trimmed line).getLast? = some ':') := by
  -- one header: both tests are made on the line without the blanks around it
  have hone (h : String × String) : Lint.headerMessage? (String.ofList line) h = none ↔
      (h.1.toList <+: Marks.trimmed line → (Marks.trimmed line).getLast? = some ':') := by
    have hstart : Text.startsWith (Text.trim (String.ofList line)) h.1 = true ↔
        h.1.toList <+: Marks.trimmed line := by
      rw [Text.startsWith, Text.trim, String.toList_ofList, String.toList_ofList, Text.isSome_dropPrefix?_iff]
      rfl
    have hend : Text.endsWith (Text.trim (String.ofList line)) ":" = true ↔
        (Marks.trimmed line).getLast? = some ':' := by
      rw [Text.trim, endsWith_colon_iff, String.toList_ofList]
      rfl
    rw [← hstart, ← hend, Lint.headerMessage?]
    split <;> simp_all
  have hstarts : headerTokens.map (·.2.toList ++ [' ']) = Lint.headers.map (·.1.toList) := by decide +kernel
  calc (∀ h ∈ Lint.headers, Lint.headerMessage? (String.ofList line) h = none) ↔
      ∀ start ∈ Lint.headers.map (·.1.toList), start <+: Marks.trimmed line →
        (Marks.trimmed line).getLast? = some ':' := by simp only [hone, forall_mem_map]
    _ ↔ _ := by rw [← hstarts, forall_mem_map]; simp only [forall_exists_index, and_imp]

theorem check_errors_iff (source : String) :
    (∀ i ∈ Lint.check source, i.gravity ≠ .error) ↔
      ∀ r ∈ rows source.toList, ∀ h ∈ Lint.headers,
        Lint.headerMessage? (String.ofList r.line) h = none := by
  have hlines (number : Nat) (lines : List String) :
      (∀ i ∈ Lint.checkLines number lines, i.gravity ≠ .error) ↔
        ∀ line ∈ lines, ∀ h ∈ Lint.headers, Lint.headerMessage? line h = none := by
    induction lines generalizing number with
    | nil => simp [Lint.checkLines]
    | cons line lines ih =>
      rw [Lint.checkLines, forall_mem_append, ih, forall_mem_cons, Lint.checkLine,
        forall_mem_append, forall_mem_map, forall_mem_map, ← filterMap_eq_nil_iff]
      -- warnings are no errors, so only the headers count
      refine and_congr ⟨fun h => ?_, fun h => ?_⟩ Iff.rfl
      · exact eq_nil_iff_forall_not_mem.2 fun m hm => h.1 m hm rfl
      · rw [h]
        exact ⟨fun m hm => absurd hm not_mem_nil, fun m _ hg => by cases hg⟩
  rw [Lint.check, hlines, Text.lines, Text.splitChar, ← map_line_rowsFrom 0 none (Text.splitOnChar _ _),
    map_map, forall_mem_map]
  rfl

/-! ## Marks -/

theorem unclosedIn_eq_none_iff (rest : List Char) (column : Nat) (line : List Char) :
    Marks.unclosedIn rest column line = none ↔ ∀ c ∈ line, ∀ d, Marks.closingOf c = some d → d ∈ rest := by
  induction line generalizing column with
  | nil => simp [Marks.unclosedIn]
  | cons c more ih =>
    rw [Marks.unclosedIn]
    split
    next d hd =>
      by_cases hmem : d ∈ rest
      · simp [hmem, hd, ih]
      · simp [hmem, hd]
    next hnone => simp [hnone, ih]

theorem unclosed_eq_nil_iff (start : Nat) (quote : Option Char) (lines : List (List Char)) :
    Marks.unclosed start lines = [] ↔ ∀ r ∈ rowsFrom start quote lines, ∀ c ∈ r.line, ∀ d,
      Marks.closingOf c = some d → d ∈ r.onwards := by
  induction lines generalizing start quote with
  | nil => simp [Marks.unclosed, rowsFrom]
  | cons line later ih =>
    rw [Marks.unclosed, rowsFrom, forall_mem_cons, ← ih]
    rw [← unclosedIn_eq_none_iff _ 0]
    dsimp only [Row.onwards]
    cases Marks.unclosedIn (line :: later).flatten 0 line <;> simp

theorem Balance.add_add (b : Marks.Balance) (line more : List Char) :
    (b.add line).add more = b.add (line ++ more) := by
  simp only [Marks.Balance.add, Marks.surplus, count_append, Marks.Balance.mk.injEq]
  omega

theorem survey_cons (start : Nat) (quote : Option Char) (b : Marks.Balance) (n : Nat)
    (line : List Char) (later : List (List Char)) :
    Marks.survey quote b n (line :: later) =
      let r : Row := ⟨start, quote, line, later⟩
      if r.watched then
        let (found, total) := Marks.survey r.quoteAfter (b.add line) (n + 1) later
        (if Marks.lacksSemicolon line then n :: found else found, total)
      else Marks.survey r.quoteAfter b (n + 1) later := by
  rw [Marks.survey]
  by_cases hsilent : Marks.isSilent line = true
  · simp [Row.watched, Row.quoteAfter, hsilent]
  · cases hopen : openQuoteFrom none quote line <;>
      simp [Row.watched, Row.quoteAfter, hsilent, hopen]

theorem survey_eq (start : Nat) (quote : Option Char) (b : Marks.Balance) (n : Nat)
    (lines : List (List Char)) :
    ((Marks.survey quote b n lines).1 = [] ↔ ∀ r ∈ rowsFrom start quote lines, r.watched = true →
      Marks.lacksSemicolon r.line = false) ∧
    (∀ k ∈ (Marks.survey quote b n lines).1, n ≤ k ∧ k < n + lines.length) ∧
    (Marks.survey quote b n lines).2 =
      b.add (((rowsFrom start quote lines).filter Row.watched).flatMap Row.line) := by
  -- on the lines, with the quote that is open before them and the balance so far
  induction lines generalizing start quote b n with
  | nil => simp [Marks.survey, rowsFrom, Marks.Balance.add, Marks.surplus]
  | cons line later ih =>
    rw [survey_cons start, rowsFrom, forall_mem_cons, length_cons]
    dsimp only
    generalize hr : (⟨start, quote, line, later⟩ : Row) = r
    have hline : r.line = line := by rw [← hr]
    by_cases hwatched : r.watched = true
    · obtain ⟨hfound, hrange, hbalance⟩ := ih (start + line.length + 1) r.quoteAfter (b.add line) (n + 1)
      rw [if_pos hwatched, filter_cons_of_pos hwatched, flatMap_cons, hline]
      refine ⟨?_, fun k hk => ?_, ?_⟩
      · split <;> simp_all
      · split at hk
        · obtain rfl | hk := mem_cons.1 hk
          · omega
          · have := hrange k hk
            omega
        · have := hrange k hk
          omega
      · rw [← Balance.add_add]
        exact hbalance
    · obtain ⟨hfound, hrange, hbalance⟩ := ih (start + line.length + 1) r.quoteAfter b (n + 1)
      rw [if_neg hwatched, filter_cons_of_neg hwatched, ← hfound]
      refine ⟨by simp [hwatched], fun k hk => ?_, hbalance⟩
      have := hrange k hk
      omega

theorem wholeLines_eq_nil_iff (numbers : List Nat) (start n : Nat) (lines : List (List Char)) :
    Marks.wholeLines numbers start n lines = [] ↔ ∀ k ∈ numbers, ¬(n ≤ k ∧ k < n + lines.length) := by
  induction lines generalizing start n with
  | nil =>
    rw [Marks.wholeLines]
    simp
  | cons line later ih =>
    rw [Marks.wholeLines, append_eq_nil_iff, ih, length_cons]
    by_cases hn : n ∈ numbers
    · simp only [contains_iff_mem.2 hn, if_true, cons_ne_nil, false_and, false_iff]
      intro h
      exact h n hn ⟨Nat.le_refl n, by omega⟩
    · have hnot : numbers.contains n = false := by simpa using hn
      rw [hnot, if_neg (by decide)]
      simp only [true_and]
      refine forall_congr' fun k => forall_congr' fun hk => not_congr ?_
      have hne : k ≠ n := fun h => hn (h ▸ hk)
      omega

def watchedText (text : List Char) : List Char := ((rows text).filter Row.watched).flatMap Row.line

def EvenBrackets (text : List Char) : Prop :=
  ∀ c d, Marks.closingOf c = some d → text.count c = text.count d

theorem even_add_iff (text : List Char) :
    Marks.Balance.even.add text = .even ↔ EvenBrackets text := by
  have hall : EvenBrackets text ↔ text.count '\x7b' = text.count '\x7d' ∧
      text.count '[' = text.count ']' ∧ text.count '(' = text.count ')' := by
    constructor
    · intro h
      exact ⟨h _ _ rfl, h _ _ rfl, h _ _ rfl⟩
    · rintro ⟨hbraces, hsquares, hrounds⟩ c d hd
      unfold Marks.closingOf at hd
      split at hd <;> cases hd <;> assumption
  rw [hall]
  simp only [Marks.Balance.add, Marks.Balance.even, Marks.surplus, Marks.Balance.mk.injEq]
  omega

theorem ofScript_eq_nil_iff (text : List Char) :
    Marks.ofScript text = [] ↔
      (∀ r ∈ rows text, r.watched = true → Marks.lacksSemicolon r.line = false) ∧
      (EvenBrackets (watchedText text) ∨ ∀ r ∈ rows text, ∀ c ∈ r.line, ∀ d,
        Marks.closingOf c = some d → d ∈ r.onwards) := by
  obtain ⟨hfound, hrange, hbalance⟩ := survey_eq 0 none .even 0 (Text.splitOnChar '\n' text)
  -- the numbers that were found are those of lines, so each of them is marked
  have hlines : Marks.wholeLines (Marks.survey none .even 0 (Text.splitOnChar '\n' text)).1 0 0
      (Text.splitOnChar '\n' text) = [] ↔
        (Marks.survey none .even 0 (Text.splitOnChar '\n' text)).1 = [] := by
    rw [wholeLines_eq_nil_iff, eq_nil_iff_forall_not_mem]
    exact forall_congr' fun k => ⟨fun h hk => h hk (hrange k hk), fun h hk => absurd hk h⟩
  rw [Marks.ofScript]
  rw [append_eq_nil_iff, hlines, hfound, hbalance, ← even_add_iff, watchedText, rows, ← unclosed_eq_nil_iff]
  split
  next heven => simp [heven]
  next hodd => simp [hodd]

theorem lacksSemicolon_eq_false_iff (line : List Char) :
    Marks.lacksSemicolon line = false ↔
      ((∃ w ∈ Marks.statementWords, w.toList <+: Marks.trimmed line) →
        ';' ∈ line ∨ (Marks.trimmed line).getLast? = some '\x7b') := by
  have hstart : Marks.statementWords.any (fun w => w.toList.isPrefixOf (Marks.trimmed line)) = true ↔
      ∃ w ∈ Marks.statementWords, w.toList <+: Marks.trimmed line := by
    simp only [any_eq_true, isPrefixOf_iff_prefix]
  have hopened : ((Marks.trimmed line).getLast? == some '\x7b') = true ↔
      (Marks.trimmed line).getLast? = some '\x7b' := beq_iff_eq
  rw [← hstart, ← hopened, Marks.lacksSemicolon, ← contains_iff_mem, bne]
  generalize any _ _ = starts, line.contains ';' = ended, (_ == some '\x7b') = opened
  revert starts ended opened
  decide

def Row.Hides (ss : List Slice) (r : Row) (c : Char) : Prop :=
  ∃ i, r.line[i]? = some c ∧ hiddenAt ss (r.start + i) = true

theorem exists_tokenAt_of_bracket (hss : Sliced ss) {n : Nat} {d : Char}
    (hn : (joined ss)[n]? = some c) (hd : Marks.closingOf c = some d)
    (hvisible : hiddenAt ss n = false) :
    ∃ s k, tokenAt ss n = some s ∧ Grammar.closingKind s.kind = some k := by
  have hsymbols : ∀ x ∈ symbols, (Marks.closingOf x.1).isSome = (Grammar.closingKind x.2).isSome := by
    decide
  have halone : goesOn c = false := by
    unfold Marks.closingOf at hd
    split at hd
    any_goals decide
    cases hd
  rcases visible_cases hss hn hvisible with ⟨s, hs, hsymbol⟩ | hlong
  · have hsome := hsymbols _ hsymbol
    rw [hd] at hsome
    obtain ⟨k, hk⟩ := Option.isSome_iff_exists.1 hsome.symm
    exact ⟨s, k, hs, hk⟩
  · rw [halone] at hlong
    cases hlong

theorem mem_flatten_of_mem_intercalate {sep : Char} (hc : c ≠ sep) {lines : List (List Char)}
    (h : c ∈ [sep].intercalate lines) : c ∈ lines.flatten := by
  induction lines with
  | nil => exact h
  | cons line later ih =>
    cases later with
    | nil => simpa using h
    | cons next rest =>
      rw [intercalate_cons_cons, mem_append, mem_append, mem_singleton] at h
      rw [flatten_cons, mem_append]
      obtain (h | h) | h := h
      · exact .inl h
      · exact absurd h hc
      · exact .inr (ih h)

theorem brackets_iff {p : Program} (h : ReadsWhole source p) (hss : Slices source ss) {r : Row}
    (hr : r ∈ rows source.toList) :
    (∀ c ∈ r.line, ∀ d, Marks.closingOf c = some d → d ∈ r.onwards) ↔
      ∀ c d, Marks.closingOf c = some d → r.Hides ss c → d ∈ r.onwards := by
  constructor
  · rintro hall c d hd ⟨i, hi, -⟩
    exact hall c (mem_of_getElem? hi) d hd
  · intro hhidden c hc d hd
    obtain ⟨i, hi⟩ := mem_iff_getElem?.1 hc
    by_cases hplace : hiddenAt ss (r.start + i) = true
    · exact hhidden c d hd ⟨i, hi, hplace⟩
    · have hchar : source.toList[r.start + i]? = some c := by
        obtain ⟨tail, htail, -⟩ := exists_tail_of_mem_rows hr
        obtain ⟨hlt, -⟩ := List.getElem?_eq_some_iff.1 hi
        rw [← getElem?_drop, htail, getElem?_append_left hlt, hi]
      obtain ⟨s, k, hs, hk⟩ := exists_tokenAt_of_bracket hss.sliced (hss.text.symm ▸ hchar) hd
        (Bool.of_not_eq_true hplace)
      have hmem := h.closing_of_tokenAt hss hs hk hchar hd
      rw [← drop_drop, drop_of_mem_rows hr] at hmem
      refine mem_flatten_of_mem_intercalate ?_ (mem_of_mem_drop hmem)
      rintro rfl
      unfold Marks.closingOf at hd
      split at hd <;> simp at hd

/-! ## Alarms -/

/-- **For a script that is read as a whole, no error is reported and nothing is marked if and only if** each
row that starts like a header ends with a colon, each watched row that starts like a statement has its
semicolon or opens a block, and the brackets of the watched rows are even or those in comments and strings
have a counterpart behind them. Colons are in comments and strings only, and so are the rows that no token
opens. -/
theorem no_alarm_iff [Toolkit] {source : String} {p : Program} (h : ReadsWhole source p) :
    (∃ ss, Slices source ss) ∧ ∀ ss, Slices source ss →
      ((∀ i ∈ Lint.check source, i.gravity ≠ .error) ↔
        ∀ r ∈ rows source.toList, r.Headed ss → r.body.getLast? = some ':') ∧
      (∀ v : CodeView, v.language = CodeView.checkedLanguage → v.contents = source.toList →
        (v.detect.marks = [] ↔
          (∀ r ∈ rows source.toList, r.watched = true → r.StartsStatement ss →
            ';' ∈ r.line ∨ r.body.getLast? = some '\x7b') ∧
          (EvenBrackets (watchedText source.toList) ∨ ∀ r ∈ rows source.toList, ∀ c d,
            Marks.closingOf c = some d → r.Hides ss c → d ∈ r.onwards))) ∧
      (∀ n, source.toList[n]? = some ':' → hiddenAt ss n = true) ∧
      ∀ r ∈ rows source.toList, r.body ≠ [] → tokenAt ss r.place = none → hiddenAt ss r.place = true := by
  refine ⟨h.exists_slices, fun ss hss => ⟨?_, fun v hlanguage htext => ?_, fun n hn => ?_, ?_⟩⟩
  · -- row by row
    rw [check_errors_iff]
    refine forall_congr' fun r => forall_congr' fun hr => ?_
    rw [headerMessage?_eq_none_iff, ← headed_iff hss hr]
    rfl
  · rw [CodeView.detect, if_pos hlanguage, htext, ofScript_eq_nil_iff]
    refine and_congr ?_ (or_congr Iff.rfl ?_)
    · refine forall_congr' fun r => forall_congr' fun hr => forall_congr' fun _ => ?_
      rw [lacksSemicolon_eq_false_iff, ← startsStatement_iff hss hr]
      rfl
    · exact forall_congr' fun r => forall_congr' fun hr => brackets_iff h hss hr
  · exact hiddenAt_of_blank_or_colon hss.sliced (hss.text.symm ▸ hn) (.inr rfl)
  · exact fun r hr hbody hnone => hidden_of_unopened hss hr hbody hnone

attribute [local instance] Toolkit.standard

/-- A comment can end with the colon that keeps the editors quiet. -/
theorem no_alarm_colon_in_comment :
    ReadsWhole "if a \x7b\x7d # :" ⟨[], [.cond (.name "a") (.block []) none], []⟩ ∧
      (∀ i ∈ Lint.check "if a \x7b\x7d # :", i.gravity ≠ .error) ∧
      ∃ ss, Slices "if a \x7b\x7d # :" ss ∧ hiddenAt ss 10 = true ∧
        ∀ r ∈ rows "if a \x7b\x7d # :".toList,
          (r.Headed ss → r.body.getLast? = some ':') ∧
          (r.watched = true → r.StartsStatement ss → ';' ∈ r.line ∨ r.body.getLast? = some '\x7b') := by
  have hscan : scan "if a \x7b\x7d # :" = .ok [⟨.ifWord, "if", ⟨1, 1⟩⟩, ⟨.identifier, "a", ⟨1, 4⟩⟩,
      ⟨.leftBrace, "\x7b", ⟨1, 6⟩⟩, ⟨.rightBrace, "\x7d", ⟨1, 7⟩⟩, ⟨.endOfInput, "", ⟨1, 12⟩⟩] :=
    eq_ok_of_toOption (by decide +kernel)
  have hreads : ReadsWhole "if a \x7b\x7d # :" ⟨[], [.cond (.name "a") (.block []) none], []⟩ :=
    readsWhole_of_parse hscan rfl (by decide +kernel)
  have hquiet : ∀ i ∈ Lint.check "if a \x7b\x7d # :", i.gravity ≠ .error := by decide +kernel
  have hunmarked : (CodeView.detect ⟨.ofText "if a \x7b\x7d # :".toList, CodeView.checkedLanguage, none, [],
      true⟩).marks = [] := by decide +kernel
  obtain ⟨⟨ss, hss⟩, hall⟩ := no_alarm_iff hreads
  obtain ⟨hheaders, hmarks, hcolons, -⟩ := hall ss hss
  have hstatements := ((hmarks _ rfl rfl).1 hunmarked).1
  refine ⟨hreads, hquiet, ss, hss, hcolons 10 rfl, fun r hr => ⟨?_, hstatements r hr⟩⟩
  exact hheaders.1 hquiet r hr

/-- **The editors raise alarms on scripts that are right:** a condition is said to lack a colon, and a
declaration of two rows to lack its semicolon. -/
theorem alarms_on_whole_scripts :
    (∃ p, ReadsWhole "if a \x7b\x7d" p) ∧ (∃ i ∈ Lint.check "if a \x7b\x7d", i.gravity = .error) ∧
      (∃ p, ReadsWhole "let x =\n1;" p) ∧
      (CodeView.detect ⟨.ofText "let x =\n1;".toList, CodeView.checkedLanguage, none, [], true⟩).marks ≠
        [] := by
  have hreads {source : String}
      (h : (readProgram source).toOption.map (fun r => (breaksOff r.1, ())) = some (false, ())) :
      ∃ p, ReadsWhole source p := (exists_readsWhole (fun _ => ()) h).imp fun _ => And.left
  exact ⟨hreads (by decide +kernel), by decide +kernel, hreads (by decide +kernel), by decide +kernel⟩

end ScriptWorkbench
