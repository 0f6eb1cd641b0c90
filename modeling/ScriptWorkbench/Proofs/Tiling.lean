/-
What the tokens take up of a source (`scan_eq_ok_iff_tiles`).

Before each token stand blanks and line comments, then comments between `/*` and `*/` that are glued to the
token, then its lexeme. A lexeme is as long as it can be, so whether some characters are one depends on what
follows them, and the relation `Lexeme` has the rest of the text as an argument. The slash is the only lexeme
that could also begin a comment. It never stands before a star; before another slash it stands only behind a
glued comment, where line comments are not looked for.
-/
import ScriptWorkbench.Proofs.Placement
import ScriptWorkbench.Proofs.Numerals
import ScriptWorkbench.Proofs.Scanned

namespace ScriptWorkbench

open List

namespace Text

/-! ## Digits are no letters -/

def apart (rs ss : List (Nat × Nat)) : Bool := rs.all fun r => ss.all fun s => r.2 < s.1 || s.2 < r.1

theorem inRanges_of_apart {rs ss : List (Nat × Nat)} (h : apart rs ss = true) {n : Nat}
    (hn : inRanges rs n = true) : inRanges ss n = false := by
  obtain ⟨r, hr, hin⟩ := any_eq_true.1 hn
  have hall := all_eq_true.1 (all_eq_true.1 h r hr)
  rw [Bool.and_eq_true, decide_eq_true_iff, decide_eq_true_iff] at hin
  refine any_eq_false.2 fun s hs => ?_
  have hmiss := hall s hs
  rw [Bool.or_eq_true, decide_eq_true_iff, decide_eq_true_iff] at hmiss
  rw [Bool.and_eq_true, decide_eq_true_iff, decide_eq_true_iff]
  omega

def digitRanges : List (Nat × Nat) := zeroPoints.map (fun z => (z, z + 9)) ++ figureRanges

theorem inRanges_of_isDigit {c : Char} (hc : 128 ≤ c.toNat) (h : isDigit c = true) :
    inRanges digitRanges c.toNat = true := by
  have hlarge : ¬c.toNat < 128 := Nat.not_lt.2 hc
  rw [digitRanges, inRanges, any_append, Bool.or_eq_true]
  rw [isDigit, Bool.or_eq_true, hasProperty, if_neg hlarge] at h
  refine h.imp (fun hdecimal => ?_) id
  rw [isDecimal, decimalValue?, if_neg hlarge, Option.isSome_map, find?_isSome] at hdecimal
  obtain ⟨z, hz, hin⟩ := hdecimal
  exact any_eq_true.2 ⟨(z, z + 9), mem_map.2 ⟨z, hz, rfl⟩, hin⟩

theorem isLetter_of_isDigit {c : Char} (h : isDigit c = true) : isLetter c = false := by
  -- the tables of ranges begin at 128; below it there are few enough characters to try
  by_cases hc : c.toNat < 128
  · have hascii : ∀ n < 128, isDigit (Char.ofNat n) = true → isLetter (Char.ofNat n) = false := by
      decide +kernel
    have hn := hascii c.toNat hc
    rw [Char.ofNat_toNat] at hn
    exact hn h
  · have hapart : apart digitRanges letterRanges = true := by decide +kernel
    rw [isLetter, hasProperty, if_neg hc]
    exact inRanges_of_apart hapart (inRanges_of_isDigit (Nat.not_lt.1 hc) h)

end Text

namespace Token

open Text

variable {body cs ds gap glued left mark more rest text : List Char} {p q : Position} {c : Char}
  {e : ScanError} {t : Piece Token} {us : List Token} {w : Kind × String}

/-! ## The equations of the scanner -/

theorem nextToken_block (p : Position) (cs : List Char) :
    nextToken p ('/' :: '*' :: cs) = (skipBlock (p.advance 2) cs).bind fun r => nextToken r.1 r.2 := by
  rw [nextToken]
  split
  next h => rw [h]; rfl
  next h => rw [h]; rfl

theorem scanFrom_gap (hc : isGap c = true) (p : Position) (cs : List Char) :
    scanFrom p (c :: cs) = scanFrom (p.afterGap c) cs := by
  rw [scanFrom, if_pos hc]

theorem scanFrom_comment {cs : List Char} (hc : isGap c = false)
    (hcomment : startsLineComment (c :: cs) = true) (p : Position) :
    scanFrom p (c :: cs) = scanFrom (skipLine (p.advance 1) cs).1 (skipLine (p.advance 1) cs).2 := by
  rw [scanFrom, if_neg (by rw [hc]; decide), if_pos hcomment]

theorem scanFrom_token {cs : List Char} (hc : isGap c = false)
    (hcomment : startsLineComment (c :: cs) = false) (p : Position) :
    scanFrom p (c :: cs) =
      (nextToken p (c :: cs)).bind fun t => (scanFrom t.position t.rest).map (t.value :: ·) := by
  rw [scanFrom, if_neg (by rw [hc]; decide), if_neg (by rw [hcomment]; decide)]
  split
  next h => rw [h]; rfl
  next h => rw [h]; rfl

/-! ## Places -/

/-- The place behind a text: each line feed begins a line, any other character takes up a column. -/
def Position.after (p : Position) (cs : List Char) : Position := cs.foldl Position.afterGap p

theorem Position.after_cons (p : Position) (c : Char) (cs : List Char) :
    p.after (c :: cs) = (p.afterGap c).after cs := rfl

theorem Position.after_append (p : Position) (cs ds : List Char) :
    p.after (cs ++ ds) = (p.after cs).after ds := foldl_append

/-- A comment between `/*` and `*/` as the scanner counts it: behind a line feed it counts one column too
many. -/
def widened (cs : List Char) : List Char := cs.flatMap fun c => if c = '\n' then ['\n', ' '] else [c]

theorem widened_append (cs ds : List Char) : widened (cs ++ ds) = widened cs ++ widened ds :=
  flatMap_append

theorem Position.after_widened_cons (p : Position) (c : Char) (cs : List Char) :
    p.after (widened (c :: cs)) =
      (if c = '\n' then p.nextLine.advance 1 else p.advance 1).after (widened cs) := by
  rw [widened, flatMap_cons, after_append]
  split
  next => rfl
  next hc =>
    rw [after_cons, afterGap, if_neg hc]
    rfl

/-! ## Between tokens -/

theorem eq_of_isGap (h : isGap c = true) : ((c = ' ' ∨ c = '\t') ∨ c = '\r') ∨ c = '\n' := by
  rwa [isGap, Bool.or_eq_true, Bool.or_eq_true, Bool.or_eq_true, beq_iff_eq, beq_iff_eq, beq_iff_eq,
    beq_iff_eq] at h

def lineMarks : List (List Char) := [['#'], ['/', '/']]

theorem mem_lineMarks : mark ∈ lineMarks ↔ mark = ['#'] ∨ mark = ['/', '/'] := by
  rw [lineMarks, mem_cons, mem_singleton]

/-- Blanks and line comments, each comment with the line feed that ends it. -/
inductive Loose : List Char → Prop where
  | nothing : Loose []
  | blank {c : Char} {cs : List Char} : isGap c = true → Loose cs → Loose (c :: cs)
  | comment {c : Char} {mark body cs : List Char} : c :: mark ∈ lineMarks → '\n' ∉ body → Loose cs →
      Loose (c :: mark ++ (body ++ '\n' :: cs))

/-- Comments between `/*` and `*/`, one directly behind the other. -/
inductive Glued : List Char → Prop where
  | nothing : Glued []
  | comment {body cs : List Char} : ¬['*', '/'] <:+: body → Glued cs →
      Glued ('/' :: '*' :: (body ++ '*' :: '/' :: cs))

/-- Nothing, or a line comment that the text ends with. -/
inductive Unended : List Char → Prop where
  | nothing : Unended []
  | comment {c : Char} {mark body : List Char} : c :: mark ∈ lineMarks → '\n' ∉ body →
      Unended (c :: mark ++ body)

theorem Loose.append (h : Loose cs) (hd : Loose ds) : Loose (cs ++ ds) := by
  induction h with
  | nothing => exact hd
  | blank hc _ ih => exact .blank hc ih
  | comment hmark hbody _ ih =>
    rw [append_assoc, append_assoc]
    exact .comment hmark hbody ih

/-! ## Lexemes -/

/-- The characters between the quotes of a string literal, and the text that they spell: each stands for
itself, or for what a backslash makes of the one behind it. -/
inductive Spells : List Char → List Char → Prop where
  | nothing : Spells [] []
  | plain {c : Char} {cs vs : List Char} : c ≠ '"' → c ≠ '\\' → Spells cs vs → Spells (c :: cs) (c :: vs)
  | escaped {e c : Char} {cs vs : List Char} : unescape? e = some c → Spells cs vs →
      Spells ('\\' :: e :: cs) (c :: vs)

def AllDigits (cs : List Char) : Prop := ∀ c ∈ cs, isDigit c = true

def StopsAt (p : Char → Bool) (rest : List Char) : Prop := ∀ c ∈ rest.head?, p c = false

def startsWord (c : Char) : Bool := isLetter c || c == '_'

/-- **A lexeme before the rest of a text, and what it dictates:** the kind and the value of its token. -/
inductive Lexeme : List Char → List Char → Kind × String → Prop where
  | double {c d : Char} {kind : Kind} {rest : List Char} : ((c, d), kind) ∈ doubleSymbols →
      Lexeme [c, d] rest (kind, String.ofList [c, d])
  | single {c : Char} {kind : Kind} {rest : List Char} : (c, kind) ∈ symbols →
      (∀ d ∈ rest.head?, ∀ kind', ((c, d), kind') ∉ doubleSymbols) →
      Lexeme [c] rest (kind, String.ofList [c])
  | word {c : Char} {cs rest : List Char} : startsWord c = true → (∀ d ∈ cs, isNameChar d = true) →
      StopsAt isNameChar rest →
      Lexeme (c :: cs) rest (wordKind (String.ofList (c :: cs)), String.ofList (c :: cs))
  | whole {c : Char} {ds rest : List Char} : AllDigits (c :: ds) → StopsAt isDigit rest →
      (∀ more, rest = '.' :: more → more.head? = some '.') →
      Lexeme (c :: ds) rest (.number, String.ofList (c :: ds))
  | decimal {c : Char} {ds es rest : List Char} : AllDigits (c :: ds) → AllDigits es →
      StopsAt isDigit rest → (es ++ rest).head? ≠ some '.' →
      Lexeme (c :: ds ++ '.' :: es) rest (.number, String.ofList (c :: ds ++ '.' :: es))
  | text {body value rest : List Char} : Spells body value →
      Lexeme ('"' :: (body ++ ['"'])) rest (.text, String.ofList value)

/-- **A text in pieces, and the tokens it has:** what they are and the text they stand for. -/
inductive Tiles : List Char → List (Kind × String) → Prop where
  | done {gap tail : List Char} : Loose gap → Unended tail → Tiles (gap ++ tail) [(.endOfInput, "")]
  | token {gap glued text rest : List Char} {w : Kind × String} {ws : List (Kind × String)} :
      Loose gap → Glued glued → Lexeme text rest w →
      (text = ['/'] → rest.head? ≠ some '*' ∧ (glued = [] → rest.head? ≠ some '/')) →
      Tiles rest ws → Tiles (gap ++ (glued ++ (text ++ rest))) (w :: ws)

theorem Tiles.behind {ws : List (Kind × String)} (h : Tiles cs ws) (hgap : Loose gap) :
    Tiles (gap ++ cs) ws := by
  cases h with
  | done hgap' htail =>
    rw [← append_assoc]
    exact .done (hgap.append hgap') htail
  | token hgap' hglued htext hslash hrest =>
    rw [← append_assoc]
    exact .token (hgap.append hgap') hglued htext hslash hrest

/-! ## Comments, taken and left -/

theorem skipLine_split (p : Position) (cs : List Char) :
    (∃ body, '\n' ∉ body ∧ cs = body ++ '\n' :: (skipLine p cs).2) ∨
      '\n' ∉ cs ∧ (skipLine p cs).2 = [] := by
  fun_induction skipLine p cs with
  | case1 p => exact .inr ⟨not_mem_nil, rfl⟩
  | case2 p cs => exact .inl ⟨[], not_mem_nil, rfl⟩
  | case3 p c cs hc ih =>
    have hcons {body : List Char} (hbody : '\n' ∉ body) : '\n' ∉ c :: body := by
      rw [mem_cons, not_or]
      exact ⟨fun h => hc h.symm, hbody⟩
    obtain ⟨body, hbody, hcs⟩ | ⟨hcs, hrest⟩ := ih
    · exact .inl ⟨c :: body, hcons hbody, congrArg (c :: ·) hcs⟩
    · exact .inr ⟨hcons hcs, hrest⟩

theorem skipLine_body (h : '\n' ∉ body) (p : Position) :
    skipLine p body = (p.after body, []) ∧
      ∀ rest, skipLine p (body ++ '\n' :: rest) = ((p.after body).nextLine, rest) := by
  induction body generalizing p with
  | nil => exact ⟨rfl, fun rest => rfl⟩
  | cons c body ih =>
    rw [mem_cons, not_or] at h
    have hc : ¬c = '\n' := fun heq => h.1 heq.symm
    obtain ⟨hnil, hfeed⟩ := ih h.2 (p.advance 1)
    rw [Position.after_cons, Position.afterGap, if_neg hc]
    exact ⟨by rw [skipLine, if_neg hc, hnil], fun rest => by rw [cons_append, skipLine, if_neg hc, hfeed]⟩

theorem startsLineComment_iff :
    startsLineComment (c :: cs) = true ↔ ∃ mark rest, c :: mark ∈ lineMarks ∧ cs = mark ++ rest := by
  constructor
  · intro h
    rw [startsLineComment.eq_def] at h
    split at h
    next heq =>
      cases heq
      exact ⟨[], cs, by decide, rfl⟩
    next rest heq =>
      cases heq
      exact ⟨['/'], rest, by decide, rfl⟩
    next => cases h
  · rintro ⟨mark, rest, hmark, rfl⟩
    obtain heq | heq := mem_lineMarks.1 hmark <;> cases heq <;> rfl

theorem skipLine_mark (h : c :: mark ∈ lineMarks) (p : Position) (rest : List Char) :
    skipLine (p.advance 1) (mark ++ rest) = skipLine (p.after (c :: mark)) rest := by
  obtain heq | heq := mem_lineMarks.1 h <;> cases heq <;> rfl

theorem scanFrom_mark (h : c :: mark ∈ lineMarks) (p : Position) (rest : List Char) :
    scanFrom p (c :: (mark ++ rest)) =
      scanFrom (skipLine (p.after (c :: mark)) rest).1 (skipLine (p.after (c :: mark)) rest).2 := by
  have hgap : isGap c = false := by obtain heq | heq := mem_lineMarks.1 h <;> cases heq <;> rfl
  rw [scanFrom_comment hgap (startsLineComment_iff.2 ⟨mark, rest, h, rfl⟩), skipLine_mark h]

theorem skipBlock_split {r : Position × List Char} (h : skipBlock p cs = .ok r) :
    ∃ body, ¬['*', '/'] <:+: body ∧ cs = body ++ '*' :: '/' :: r.2 := by
  fun_induction skipBlock p cs with
  | case1 => cases h
  | case2 p cs => cases h; exact ⟨[], by decide, rfl⟩
  | case3 p c cs hne ih =>
    obtain ⟨body, hbody, hcs⟩ := ih h
    refine ⟨c :: body, fun hmarks => ?_, congrArg (c :: ·) hcs⟩
    obtain hstart | hinside := infix_cons_iff.1 hmarks
    · obtain ⟨rfl, more, rfl⟩ := cons_prefix_cons.1 hstart
      exact hne _ rfl hcs
    · exact hbody hinside

theorem skipBlock_eq_error (h : skipBlock p cs = .error e) : e = .ranOff := by
  fun_induction skipBlock p cs with
  | case1 => cases h; rfl
  | case2 => cases h
  | case3 p c cs _ ih => exact ih h

theorem skipBlock_body (h : ¬['*', '/'] <:+: body) (p : Position) (rest : List Char) :
    skipBlock p (body ++ '*' :: '/' :: rest) = .ok ((p.after (widened body)).advance 2, rest) := by
  induction body generalizing p with
  | nil => rfl
  | cons c body ih =>
    rw [cons_append, skipBlock, Position.after_widened_cons]
    · exact ih (fun hmarks => h (hmarks.trans (suffix_cons c body).isInfix)) _
    · rintro more rfl hmore
      cases body with
      | nil => cases hmore
      | cons d body =>
        obtain ⟨rfl, -⟩ := cons.inj hmore
        exact h ⟨[], body, rfl⟩

theorem scanFrom_loose (h : Loose gap) (p : Position) (rest : List Char) :
    scanFrom p (gap ++ rest) = scanFrom (p.after gap) rest := by
  induction h generalizing p with
  | nothing => rfl
  | blank hc _ ih => rw [cons_append, scanFrom_gap hc, ih, Position.after_cons]
  | comment hmark hbody _ ih =>
    rw [append_assoc, append_assoc, cons_append, scanFrom_mark hmark, cons_append,
      (skipLine_body hbody _).2, ih, Position.after_append, Position.after_append]
    rfl

theorem scanFrom_unended {tail : List Char} (h : Unended tail) (p : Position) :
    scanFrom p tail = .ok [⟨.endOfInput, "", p.after tail⟩] := by
  cases h with
  | nothing => rw [scanFrom]; rfl
  | comment hmark hbody =>
    rw [cons_append, scanFrom_mark hmark, (skipLine_body hbody _).1, scanFrom, ← cons_append,
      Position.after_append]

theorem nextToken_glued {glued : List Char} (h : Glued glued) (p : Position) (rest : List Char) :
    nextToken p (glued ++ rest) = nextToken (p.after (widened glued)) rest := by
  induction h generalizing p with
  | nothing => rfl
  | @comment body cs hbody _ ih =>
    have hplace : p.after (widened ('/' :: '*' :: (body ++ '*' :: '/' :: cs))) =
        (((p.advance 2).after (widened body)).advance 2).after (widened cs) := by
      simp only [Position.after_widened_cons, widened_append, Position.after_append]
      rfl
    rw [cons_append, cons_append, nextToken_block, append_assoc, cons_append,
      cons_append, skipBlock_body hbody, hplace, ← ih]
    rfl

/-! ## One lexeme -/

theorem stringTail_spells {start : Position} {s : Piece (List Char)}
    (h : stringTail start p cs = .ok s) :
    ∃ body, Spells body s.value ∧ cs = body ++ '"' :: s.rest := by
  fun_induction stringTail start p cs generalizing s with
  | case1 | case2 | case3 => cases h
  | case4 p e cs c he ih =>
    obtain ⟨s, hs, rfl⟩ := map_eq_ok h
    obtain ⟨body, hbody, rfl⟩ := ih hs
    exact ⟨'\\' :: e :: body, .escaped he hbody, rfl⟩
  | case5 p cs => cases h; exact ⟨[], .nothing, rfl⟩
  | case6 p c cs hne hc ih =>
    obtain ⟨s, hs, rfl⟩ := map_eq_ok h
    obtain ⟨body, hbody, rfl⟩ := ih hs
    exact ⟨c :: body, .plain hc hne hbody, rfl⟩

theorem Position.advance_advance (p : Position) (m n : Nat) :
    (p.advance m).advance n = p.advance (m + n) := by
  rw [advance, advance, advance, Nat.add_assoc]

/-- What is spelled is passed over, and stands before the value of the rest. -/
theorem stringTail_of_spells {value : List Char} (h : Spells body value) (start p : Position)
    (rest : List Char) :
    stringTail start p (body ++ rest) = (stringTail start (p.advance body.length) rest).map fun s =>
      ⟨value ++ s.value, s.position, s.rest⟩ := by
  induction h generalizing p with
  | nothing => exact (congrFun Except.map_id (stringTail start p rest)).symm
  | plain hquote hslash _ ih =>
    rw [cons_append, stringTail, if_neg hquote, ih, Position.advance_advance, Nat.add_comm 1]
    · cases stringTail start _ rest <;> rfl
    · exact hslash
  | escaped he _ ih =>
    rw [cons_append, cons_append, stringTail, he]
    rw [ih, Position.advance_advance, Nat.add_comm 2]
    cases stringTail start _ rest <;> rfl

theorem stopsAt_dropWhile (p : Char → Bool) (cs : List Char) : StopsAt p (cs.dropWhile p) := by
  intro c hc
  have hhead := head?_dropWhile_not p cs
  rw [Option.mem_def.1 hc] at hhead
  exact hhead

theorem numberTail_append (h : AllDigits ds) (point : Bool) (rest : List Char) :
    numberTail point (ds ++ rest) = (ds ++ (numberTail point rest).1, (numberTail point rest).2) := by
  induction ds with
  | nil => rfl
  | cons d ds ih =>
    obtain ⟨hd, hds⟩ := forall_mem_cons.1 h
    have hpoint : ¬(d = '.' ∧ ¬point = true ∧ (ds ++ rest).head? ≠ some '.') := by
      rintro ⟨rfl, -⟩
      exact absurd hd (by decide)
    rw [cons_append, numberTail, if_neg hpoint, if_pos hd, ih hds]
    rfl

theorem numberTail_stop {point : Bool} (hdigit : StopsAt isDigit rest)
    (hpoint : point = false → ∀ more, rest = '.' :: more → more.head? = some '.') :
    numberTail point rest = ([], rest) := by
  cases rest with
  | nil => rfl
  | cons c rest =>
    have hc : ¬isDigit c = true := by
      rw [hdigit c rfl]
      decide
    have hnone : ¬(c = '.' ∧ ¬point = true ∧ rest.head? ≠ some '.') := by
      rintro ⟨rfl, hfirst, hnext⟩
      exact hnext (hpoint (Bool.eq_false_iff.2 hfirst) rest rfl)
    rw [numberTail, if_neg hnone, if_neg hc]

theorem numberTail_whole (hds : AllDigits ds) (hdigit : StopsAt isDigit rest)
    (hpoint : ∀ more, rest = '.' :: more → more.head? = some '.') :
    numberTail false (ds ++ rest) = (ds, rest) := by
  rw [numberTail_append hds, numberTail_stop hdigit fun _ => hpoint, append_nil]

theorem numberTail_decimal {es : List Char} (hds : AllDigits ds) (hes : AllDigits es)
    (hdigit : StopsAt isDigit rest) (hnext : (es ++ rest).head? ≠ some '.') :
    numberTail false (ds ++ '.' :: (es ++ rest)) = (ds ++ '.' :: es, rest) := by
  have hpoint : '.' = '.' ∧ ¬false = true ∧ (es ++ rest).head? ≠ some '.' := ⟨rfl, by decide, hnext⟩
  have htail : numberTail true (es ++ rest) = (es, rest) := by
    rw [numberTail_append hes, numberTail_stop hdigit (by rintro ⟨⟩), append_nil]
  rw [numberTail_append hds, numberTail, if_pos hpoint, htail]

theorem number_cases (cs : List Char) :
    (∃ ds rest, cs = ds ++ rest ∧ AllDigits ds ∧ StopsAt isDigit rest ∧
        ∀ more, rest = '.' :: more → more.head? = some '.') ∨
      ∃ ds es rest, cs = ds ++ '.' :: (es ++ rest) ∧ AllDigits ds ∧ AllDigits es ∧
        StopsAt isDigit rest ∧ (es ++ rest).head? ≠ some '.' := by
  have hsplit (cs : List Char) : ∃ ds rest, cs = ds ++ rest ∧ AllDigits ds ∧ StopsAt isDigit rest :=
    ⟨cs.takeWhile isDigit, cs.dropWhile isDigit, takeWhile_append_dropWhile.symm,
      all_eq_true.1 all_takeWhile, stopsAt_dropWhile _ cs⟩
  obtain ⟨ds, rest, rfl, hds, hrest⟩ := hsplit cs
  -- a point behind the digits is taken unless it begins the two points of a range
  by_cases hpoint : ∀ more, rest = '.' :: more → more.head? = some '.'
  · exact .inl ⟨ds, rest, rfl, hds, hrest, hpoint⟩
  · obtain ⟨more, hmore⟩ := Classical.not_forall.1 hpoint
    obtain ⟨rfl, hnext⟩ := Classical.not_imp.1 hmore
    obtain ⟨es, rest, rfl, hes, hrest⟩ := hsplit more
    exact .inr ⟨ds, es, rest, rfl, hds, hes, hrest, hnext⟩

theorem not_startsWord_of_isDigit (h : isDigit c = true) :
    ¬(isLetter c || c == '_') = true := by
  rw [isLetter_of_isDigit h, Bool.false_or, beq_iff_eq]
  rintro rfl
  exact absurd h (by decide)

def startsPlainly (c : Char) : Bool := startsWord c || isDigit c || c == '"'

theorem lookup_of_startsPlainly (h : startsPlainly c = true) :
    (∀ cs, doubleSymbol? c cs = none) ∧ symbols.lookup c = none := by
  have hsymbols : ∀ x ∈ symbols, startsPlainly x.1 = false := by decide
  have hdoubles : ∀ x ∈ doubleSymbols, startsPlainly x.1.1 = false := by decide
  constructor
  · intro cs
    cases cs with
    | nil => rfl
    | cons d cs =>
      rw [doubleSymbol?]
      cases hlookup : doubleSymbols.lookup (c, d) with
      | none => rfl
      | some kind =>
        have hfalse : startsPlainly c = false := hdoubles _ (mem_of_lookup hlookup)
        rw [h] at hfalse
        cases hfalse
  · cases hlookup : symbols.lookup c with
    | none => rfl
    | some kind =>
      have hfalse : startsPlainly c = false := hsymbols _ (mem_of_lookup hlookup)
      rw [h] at hfalse
      cases hfalse

theorem doubleSymbol?_eq_none :
    doubleSymbol? c cs = none ↔ ∀ d ∈ cs.head?, ∀ kind, ((c, d), kind) ∉ doubleSymbols := by
  have hkinds : ∀ x ∈ doubleSymbols, doubleSymbols.lookup x.1 = some x.2 := by decide
  cases cs with
  | nil =>
    constructor
    · rintro - d ⟨⟩
    · exact fun _ => rfl
  | cons d cs =>
    rw [doubleSymbol?, Option.map_eq_none_iff]
    constructor
    · rintro hnone _ ⟨⟩ kind hmem
      have hsome := hkinds _ hmem
      rw [hnone] at hsome
      cases hsome
    · intro hall
      cases hlookup : doubleSymbols.lookup (c, d) with
      | none => rfl
      | some kind => exact absurd (mem_of_lookup hlookup) (hall d rfl kind)

/-- **The scanner takes a lexeme.** -/
theorem lexeme_eq_ok (h : lexeme p c cs = .ok t) :
    ∃ text, c :: cs = text ++ t.rest ∧ Lexeme text t.rest t.value.content := by
  -- the branches in the scanner's order: two-character symbols, symbols, words, numbers, texts
  unfold lexeme at h
  split at h
  next d kind hdouble =>
    cases h
    cases cs with
    | nil => cases hdouble
    | cons e cs =>
      obtain ⟨kind', hkind, heq⟩ := Option.map_eq_some_iff.1 hdouble
      cases heq
      exact ⟨[c, d], rfl, .double (mem_of_lookup hkind)⟩
  next hdouble =>
    split at h
    next kind hsymbol =>
      cases h
      exact ⟨[c], rfl, .single (mem_of_lookup hsymbol) (doubleSymbol?_eq_none.1 hdouble)⟩
    next =>
      split at h
      next hc =>
        cases h
        refine ⟨c :: cs.takeWhile isNameChar, ?_, .word hc (all_eq_true.1 all_takeWhile)
          (stopsAt_dropWhile isNameChar cs)⟩
        rw [cons_append, takeWhile_append_dropWhile]
      next =>
        split at h
        next hc =>
          obtain ⟨ds, rest, rfl, hds, hstop, hpoint⟩ | ⟨ds, es, rest, rfl, hds, hes, hstop, hnext⟩ :=
            number_cases cs
          · rw [numberTail_whole hds hstop hpoint] at h
            cases h
            exact ⟨c :: ds, rfl, .whole (forall_mem_cons.2 ⟨hc, hds⟩) hstop hpoint⟩
          · rw [numberTail_decimal hds hes hstop hnext] at h
            cases h
            refine ⟨c :: ds ++ '.' :: es, by simp, ?_⟩
            exact .decimal (forall_mem_cons.2 ⟨hc, hds⟩) hes hstop hnext
        next =>
          split at h
          next hc =>
            obtain ⟨s, htail, rfl⟩ := map_eq_ok h
            obtain ⟨body, hbody, rfl⟩ := stringTail_spells htail
            exact ⟨'"' :: (body ++ ['"']), by simp [hc], .text hbody⟩
          next => cases h

theorem lexeme_quote (p : Position) (cs : List Char) :
    lexeme p '"' cs = (stringTail p (p.advance 1) cs).map fun s =>
      ⟨⟨.text, String.ofList s.value, p⟩, s.position, s.rest⟩ := by
  rw [lexeme, (lookup_of_startsPlainly (c := '"') (by decide)).1]
  rfl

theorem lexeme_eq_error (h : lexeme p c cs = .error e) :
    c = '"' ∧ stringTail p (p.advance 1) cs = .error e ∨
      doubleSymbol? c cs = none ∧ e = .unexpected c p ∧
        ∀ ds, doubleSymbol? c ds = none → lexeme p c ds = .error e := by
  unfold lexeme at h
  split at h
  next => cases h
  next hdouble =>
    split at h
    next => cases h
    next hsymbol =>
      split at h
      next => cases h
      next hword =>
        split at h
        next => cases h
        next hdigit =>
          split at h
          next hquote => exact .inl ⟨hquote, map_eq_error h⟩
          next hquote =>
            cases h
            refine .inr ⟨hdouble, rfl, fun ds hds => ?_⟩
            rw [lexeme, hds, hsymbol]
            rw [if_neg hword, if_neg hdigit, if_neg hquote]

/-- **A lexeme is what the scanner takes,** if the rest of the text is there. -/
theorem Lexeme.taken (h : Lexeme text rest w) (p : Position) : ∃ c cs, text ++ rest = c :: cs ∧
      lexeme p c cs = .ok ⟨⟨w.1, w.2, p⟩, p.advance text.length, rest⟩ := by
  cases h with
  | @double c d kind _ hmem =>
    have hkinds : ∀ x ∈ doubleSymbols, doubleSymbols.lookup x.1 = some x.2 := by decide
    have hlookup : doubleSymbol? c (d :: rest) = some (d, kind) := by
      rw [doubleSymbol?, hkinds _ hmem]
      rfl
    exact ⟨c, d :: rest, rfl, by rw [lexeme, hlookup]; rfl⟩
  | @single c kind _ hmem hnone =>
    have hkinds : ∀ x ∈ symbols, symbols.lookup x.1 = some x.2 := by decide
    have hlookup : symbols.lookup c = some kind := hkinds _ hmem
    exact ⟨c, rest, rfl, by rw [lexeme, doubleSymbol?_eq_none.2 hnone]; dsimp only; rw [hlookup]; rfl⟩
  | @word c cs _ hc hcs hstop =>
    obtain ⟨hdouble, hsymbol⟩ := lookup_of_startsPlainly (c := c) (by simp [startsPlainly, hc])
    obtain ⟨htake, hdrop⟩ := takeWhile_append_of_stop hcs hstop
    refine ⟨c, cs ++ rest, rfl, ?_⟩
    rw [lexeme, hdouble, hsymbol]
    rw [if_pos (show (isLetter c || c == '_') = true from hc), htake, hdrop]
  | @whole c ds _ hds hstop hpoint =>
    obtain ⟨hc, hds⟩ := forall_mem_cons.1 hds
    obtain ⟨hdouble, hsymbol⟩ := lookup_of_startsPlainly (c := c) (by simp [startsPlainly, hc])
    refine ⟨c, ds ++ rest, rfl, ?_⟩
    rw [lexeme, hdouble, hsymbol]
    rw [if_neg (not_startsWord_of_isDigit hc), if_pos hc, numberTail_whole hds hstop hpoint]
  | @decimal c ds es _ hds hes hstop hnext =>
    obtain ⟨hc, hds⟩ := forall_mem_cons.1 hds
    obtain ⟨hdouble, hsymbol⟩ := lookup_of_startsPlainly (c := c) (by simp [startsPlainly, hc])
    refine ⟨c, ds ++ '.' :: (es ++ rest), by simp, ?_⟩
    rw [lexeme, hdouble, hsymbol]
    rw [if_neg (not_startsWord_of_isDigit hc), if_pos hc, numberTail_decimal hds hes hstop hnext]
    rfl
  | @text body value _ hbody =>
    refine ⟨'"', body ++ '"' :: rest, by simp, ?_⟩
    rw [lexeme_quote, stringTail_of_spells hbody, Position.advance_advance, Nat.add_comm 1, length_cons,
      length_append]
    exact congrArg (fun v => Except.ok (Piece.mk (Token.mk .text (String.ofList v) p) _ rest)) (append_nil value)

/-! ## The whole text -/

theorem Lexeme.head (h : Lexeme text rest w) :
    ∃ c cs, text = c :: cs ∧ isGap c = false ∧ c ≠ '#' ∧ (c = '/' → cs = []) := by
  have hplain {c : Char} (hc : startsPlainly c = true) : isGap c = false ∧ c ≠ '#' ∧ c ≠ '/' := by
    have hall : [' ', '\t', '\r', '\n', '#', '/'].all (fun d => !startsPlainly d) = true := by decide
    have hne : ∀ d ∈ [' ', '\t', '\r', '\n', '#', '/'], c ≠ d := by
      rintro d hd rfl
      have hother := all_eq_true.1 hall c hd
      rw [hc] at hother
      cases hother
    simp only [forall_mem_cons] at hne
    obtain ⟨hspace, htab, hreturn, hfeed, hhash, hslash, -⟩ := hne
    exact ⟨by simp [isGap, hspace, htab, hreturn, hfeed], hhash, hslash⟩
  cases h with
  | @double c d kind _ hmem =>
    have hall : ∀ x ∈ doubleSymbols, isGap x.1.1 = false ∧ x.1.1 ≠ '#' ∧ x.1.1 ≠ '/' := by decide
    obtain ⟨hgap, hhash, hslash⟩ := hall _ hmem
    exact ⟨c, [d], rfl, hgap, hhash, fun hc => absurd hc hslash⟩
  | @single c kind _ hmem _ =>
    have hall : ∀ x ∈ symbols, isGap x.1 = false ∧ x.1 ≠ '#' := by decide
    obtain ⟨hgap, hhash⟩ := hall _ hmem
    exact ⟨c, [], rfl, hgap, hhash, fun _ => rfl⟩
  | @word c cs _ hc _ _ =>
    obtain ⟨hgap, hhash, hslash⟩ := hplain (c := c) (by simp [startsPlainly, hc])
    exact ⟨c, cs, rfl, hgap, hhash, fun hc => absurd hc hslash⟩
  | @whole c ds _ hds _ _ =>
    have hc : isDigit c = true := hds c mem_cons_self
    obtain ⟨hgap, hhash, hslash⟩ := hplain (c := c) (by simp [startsPlainly, hc])
    exact ⟨c, ds, rfl, hgap, hhash, fun hc => absurd hc hslash⟩
  | @decimal c ds es _ hds _ _ _ =>
    have hc : isDigit c = true := hds c mem_cons_self
    obtain ⟨hgap, hhash, hslash⟩ := hplain (c := c) (by simp [startsPlainly, hc])
    exact ⟨c, ds ++ '.' :: es, rfl, hgap, hhash, fun hc => absurd hc hslash⟩
  | @text body value _ _ =>
    exact ⟨'"', body ++ ['"'], rfl, by decide, by decide, fun hc => absurd hc (by decide)⟩

theorem nextToken_lexeme (h : c = '/' → cs.head? ≠ some '*') :
    nextToken p (c :: cs) = lexeme p c cs := by
  rw [nextToken]
  rintro cs' rfl rfl
  exact h rfl rfl

theorem nextToken_eq_ok (h : nextToken p cs = .ok t) :
    ∃ glued text, cs = glued ++ (text ++ t.rest) ∧ Glued glued ∧
      Lexeme text t.rest t.value.content ∧ (text = ['/'] → t.rest.head? ≠ some '*') := by
  fun_induction nextToken p cs with
  | case1 | case2 => cases h
  | case3 p cs r hr ih =>
    obtain ⟨body, hbody, rfl⟩ := skipBlock_split hr
    obtain ⟨glued, text, hrest, hglued, htext, hslash⟩ := ih h
    refine ⟨'/' :: '*' :: (body ++ '*' :: '/' :: glued), text, ?_, .comment hbody hglued, htext, hslash⟩
    rw [hrest]
    simp only [cons_append, append_assoc]
  | case4 p c cs hne =>
    obtain ⟨text, htext, hlexeme⟩ := lexeme_eq_ok h
    refine ⟨[], text, htext, .nothing, hlexeme, ?_⟩
    rintro rfl hstar
    obtain ⟨rfl, rfl⟩ := cons.inj htext
    obtain ⟨more, hmore⟩ := head?_eq_some_iff.1 hstar
    exact hne more rfl hmore

theorem nextToken_piece (hcomment : ¬startsLineComment cs = true) (h : nextToken p cs = .ok t) :
    ∃ glued text, cs = glued ++ (text ++ t.rest) ∧ Glued glued ∧ Lexeme text t.rest t.value.content ∧
      (text = ['/'] → t.rest.head? ≠ some '*' ∧ (glued = [] → t.rest.head? ≠ some '/')) := by
  obtain ⟨glued, text, hcs, hglued, htext, hslash⟩ := nextToken_eq_ok h
  refine ⟨glued, text, hcs, hglued, htext, ?_⟩
  rintro rfl
  refine ⟨hslash rfl, ?_⟩
  rintro rfl hhead
  -- two slashes would have been taken for a comment
  obtain ⟨more, hmore⟩ := head?_eq_some_iff.1 hhead
  rw [hcs, hmore] at hcomment
  exact hcomment rfl

theorem nextToken_taken (hglued : Glued glued) (htext : Lexeme text rest w)
    (hslash : text = ['/'] → rest.head? ≠ some '*') (p : Position) :
    nextToken p (glued ++ (text ++ rest)) = .ok ⟨⟨w.1, w.2, p.after (widened glued)⟩,
      (p.after (widened glued)).advance text.length, rest⟩ := by
  obtain ⟨c, cs, hcs, htaken⟩ := htext.taken (p.after (widened glued))
  obtain ⟨d, ds, rfl, -, -, hsingle⟩ := htext.head
  rw [cons_append] at hcs
  obtain ⟨rfl, rfl⟩ := cons.inj hcs
  rw [nextToken_glued hglued, cons_append, nextToken_lexeme ?_, htaken]
  rintro rfl
  obtain rfl := hsingle rfl
  exact hslash rfl

/-- Neither a blank nor a line comment stands at the front. -/
def AtToken (cs : List Char) : Prop :=
  ∃ c rest, cs = c :: rest ∧ isGap c = false ∧ startsLineComment (c :: rest) = false

theorem AtToken.ne_nil (h : AtToken cs) : cs ≠ [] := by
  obtain ⟨c, rest, rfl, -⟩ := h
  exact cons_ne_nil c rest

theorem AtToken.scanFrom (h : AtToken cs) (p : Position) :
    scanFrom p cs = (nextToken p cs).bind fun t => (Token.scanFrom t.position t.rest).map (t.value :: ·) := by
  obtain ⟨c, rest, rfl, hc, hcomment⟩ := h
  exact scanFrom_token hc hcomment p

theorem Glued.atToken (hglued : Glued glued) (h : glued = [] → AtToken more) : AtToken (glued ++ more) := by
  cases hglued with
  | nothing => exact h rfl
  | comment => exact ⟨'/', _, rfl, rfl, rfl⟩

/-- **One piece of a text is scanned,** whatever comes of the rest. -/
theorem scanFrom_piece (hgap : Loose gap) (hglued : Glued glued) (htext : Lexeme text rest w)
    (hslash : text = ['/'] → rest.head? ≠ some '*' ∧ (glued = [] → rest.head? ≠ some '/'))
    (p : Position) :
    scanFrom p (gap ++ (glued ++ (text ++ rest))) =
      (scanFrom ((p.after (gap ++ widened glued)).advance text.length) rest).map
        (⟨w.1, w.2, p.after (gap ++ widened glued)⟩ :: ·) := by
  have hfront : AtToken (glued ++ (text ++ rest)) := by
    refine hglued.atToken fun hnil => ?_
    obtain ⟨d, ds, rfl, hblank, hhash, hsingle⟩ := htext.head
    refine ⟨d, ds ++ rest, rfl, hblank, Bool.eq_false_iff.2 fun hcomment => ?_⟩
    obtain ⟨mark, more, hmark, hmore⟩ := startsLineComment_iff.1 hcomment
    obtain heq | heq := mem_lineMarks.1 hmark <;> cases heq
    · exact hhash rfl
    · obtain rfl := hsingle rfl
      rw [nil_append] at hmore
      exact (hslash rfl).2 hnil (by rw [hmore]; rfl)
  rw [scanFrom_loose hgap, Position.after_append, hfront.scanFrom,
    nextToken_taken hglued htext fun hone => (hslash hone).1]
  rfl

/-- **A text in pieces is scanned,** from every place. -/
theorem scanFrom_of_tiles {ws : List (Kind × String)} (h : Tiles cs ws) (p : Position) :
    ∃ ts, scanFrom p cs = .ok ts ∧ ts.map content = ws := by
  induction h generalizing p with
  | done hgap htail => exact ⟨_, by rw [scanFrom_loose hgap, scanFrom_unended htail], rfl⟩
  | @token gap glued text rest w ws hgap hglued htext hslash _ ih =>
    obtain ⟨ts, hts, rfl⟩ := ih ((p.after (gap ++ widened glued)).advance text.length)
    exact ⟨_ :: ts, by rw [scanFrom_piece hgap hglued htext hslash, hts]; rfl, rfl⟩

/-! ## Up to a place -/

/-- The text falls into pieces up to a place where the next token has to begin, and `left` is what follows
there. -/
inductive TilesUpTo (left : List Char) : List Char → Prop where
  | here {gap : List Char} : Loose gap → TilesUpTo left (gap ++ left)
  | token {gap glued text rest : List Char} {w : Kind × String} : Loose gap → Glued glued →
      Lexeme text rest w →
      (text = ['/'] → rest.head? ≠ some '*' ∧ (glued = [] → rest.head? ≠ some '/')) →
      TilesUpTo left rest → TilesUpTo left (gap ++ (glued ++ (text ++ rest)))

theorem TilesUpTo.start (left : List Char) : TilesUpTo left left := @TilesUpTo.here left [] .nothing

theorem TilesUpTo.behind (h : TilesUpTo left cs) (hgap : Loose gap) : TilesUpTo left (gap ++ cs) := by
  cases h with
  | here hgap' =>
    rw [← append_assoc]
    exact .here (hgap.append hgap')
  | token hgap' hglued htext hslash hrest =>
    rw [← append_assoc]
    exact .token (hgap.append hgap') hglued htext hslash hrest

theorem exists_nextToken (h : nextToken p cs = .ok t) (q : Position) : ∃ t', nextToken q cs = .ok t' := by
  obtain ⟨glued, text, rfl, hglued, htext, hslash⟩ := nextToken_eq_ok h
  exact ⟨_, nextToken_taken hglued htext hslash q⟩

/-- **Every text falls into pieces** up to its end, or up to where there is no token. -/
theorem exists_tilesUpTo (p : Position) (cs : List Char) :
    ∃ left, TilesUpTo left cs ∧ (Unended left ∨ AtToken left ∧ ∀ q t, nextToken q left ≠ .ok t) := by
  -- what is skipped goes into the gap of the piece behind it, which is why gaps can be extended
  fun_induction scanFrom p cs with
  | case1 p => exact ⟨[], .start _, .inl .nothing⟩
  | case2 p c cs hc ih =>
    obtain ⟨left, htiles, hleft⟩ := ih
    exact ⟨left, htiles.behind (.blank hc .nothing), hleft⟩
  | case3 p c cs hc hcomment =>
    rename_i skipped ih
    obtain ⟨mark, body, hmark, rfl⟩ := startsLineComment_iff.1 hcomment
    have hskipped : skipped = skipLine (p.after (c :: mark)) body := skipLine_mark hmark p body
    rw [hskipped] at ih
    obtain ⟨body', hbody, hsplit⟩ | ⟨hbody, -⟩ := skipLine_split (p.after (c :: mark)) body
    · obtain ⟨left, htiles, hleft⟩ := ih
      have hpiece := htiles.behind (.comment hmark hbody .nothing)
      rw [hsplit]
      exact ⟨left, by simpa using hpiece, hleft⟩
    · exact ⟨_, .start _, .inl (.comment hmark hbody)⟩
  | case4 p c cs hc hcomment e he =>
    refine ⟨_, .start _, .inr ⟨⟨c, cs, rfl, by simpa using hc, by simpa using hcomment⟩, fun q t ht => ?_⟩⟩
    obtain ⟨t', ht'⟩ := exists_nextToken ht p
    rw [he] at ht'
    cases ht'
  | case5 p c cs hc hcomment t ht ih =>
    obtain ⟨left, htiles, hleft⟩ := ih
    obtain ⟨glued, text, hcs, hglued, htext, hseam⟩ := nextToken_piece hcomment ht
    have hpiece := TilesUpTo.token .nothing hglued htext hseam htiles
    rw [hcs]
    exact ⟨left, hpiece, hleft⟩

/-- Nothing, or a line end and what follows it. -/
def Lines (more : List Char) : Prop := ∀ c ∈ more.head?, c = '\n'

theorem Lines.head? (h : Lines more) (hc : (cs ++ more).head? = some c) (hne : c ≠ '\n') :
    cs.head? = some c := by
  cases cs with
  | nil => exact absurd (h c hc) hne
  | cons d cs => exact hc

theorem Lines.stopsAt {stops : Char → Bool} (h : Lines more) (hrest : StopsAt stops rest)
    (hfeed : stops '\n' = false) : StopsAt stops (rest ++ more) := by
  intro c hc
  by_cases hline : c = '\n'
  · rw [hline, hfeed]
  · exact hrest c (h.head? hc hline)

theorem Lines.alone (h : Lines more) (hrest : ∀ d ∈ rest.head?, ∀ kind, ((c, d), kind) ∉ doubleSymbols) :
    ∀ d ∈ (rest ++ more).head?, ∀ kind, ((c, d), kind) ∉ doubleSymbols := by
  have hfeeds : ∀ x ∈ doubleSymbols, x.1.2 ≠ '\n' := by decide
  exact fun d hd kind hmem => hrest d (h.head? hd (hfeeds _ hmem)) kind hmem

theorem Lexeme.append (h : Lexeme text rest w) (hmore : Lines more) : Lexeme text (rest ++ more) w := by
  cases h with
  | double hmem => exact .double hmem
  | single hmem hnone => exact .single hmem (hmore.alone hnone)
  | word hc hcs hstop => exact .word hc hcs (hmore.stopsAt hstop (by decide))
  | whole hds hstop hpoint =>
    refine .whole hds (hmore.stopsAt hstop (by decide)) fun behind hbehind => ?_
    have hhead : (rest ++ more).head? = some '.' := by rw [hbehind]; rfl
    obtain ⟨rest', rfl⟩ := head?_eq_some_iff.1 (hmore.head? hhead (by decide))
    obtain rfl : rest' ++ more = behind := (cons.inj hbehind).2
    rw [head?_append, hpoint rest' rfl]
    rfl
  | decimal hds hes hstop hnext =>
    refine .decimal hds hes (hmore.stopsAt hstop (by decide)) fun hpoint => ?_
    rw [← append_assoc] at hpoint
    exact hnext (hmore.head? hpoint (by decide))
  | text hbody => exact .text hbody

/-- Scanning `cs` from `p` has the tokens `us` and then goes on at `q` with `left`, also if more lines
follow. -/
def ScansTo (p : Position) (cs : List Char) (us : List Token) (q : Position) (left : List Char) : Prop :=
  ∀ more, Lines more → scanFrom p (cs ++ more) = (scanFrom q (left ++ more)).map (us ++ ·)

theorem ScansTo.whole (h : ScansTo p cs us q left) : scanFrom p cs = (scanFrom q left).map (us ++ ·) := by
  have hnothing := h [] (by rintro _ ⟨⟩)
  rwa [append_nil, append_nil] at hnothing

theorem TilesUpTo.scanFrom (h : TilesUpTo left cs) (p : Position) : ∃ us q, ScansTo p cs us q left := by
  induction h generalizing p with
  | @here gap hgap =>
    refine ⟨[], p.after gap, fun more _ => ?_⟩
    rw [append_assoc, scanFrom_loose hgap]
    cases Token.scanFrom (p.after gap) (left ++ more) <;> rfl
  | @token gap glued text rest w hgap hglued htext hseam _ ih =>
    obtain ⟨us, q, hrun⟩ := ih ((p.after (gap ++ widened glued)).advance text.length)
    refine ⟨⟨w.1, w.2, p.after (gap ++ widened glued)⟩ :: us, q, fun more hmore => ?_⟩
    rw [append_assoc, append_assoc, append_assoc, scanFrom_piece hgap hglued (htext.append hmore) ?_,
      hrun more hmore]
    · cases Token.scanFrom q (left ++ more) <;> rfl
    · exact fun hone => ⟨fun hstar => (hseam hone).1 (hmore.head? hstar (by decide)),
        fun hnil hslash => (hseam hone).2 hnil (hmore.head? hslash (by decide))⟩

/-- **How scanning a text ends:** behind all its pieces, or with the failure to take a token. -/
theorem scanFrom_cases (p : Position) (cs : List Char) :
    ∃ left us q, TilesUpTo left cs ∧ ScansTo p cs us q left ∧
      (Unended left ∧ scanFrom p cs = .ok (us ++ [⟨.endOfInput, "", q.after left⟩]) ∨
        AtToken left ∧ ∃ e, nextToken q left = .error e ∧ scanFrom p cs = .error e) := by
  obtain ⟨left, htiles, hleft⟩ := exists_tilesUpTo p cs
  obtain ⟨us, q, hrun⟩ := htiles.scanFrom p
  refine ⟨left, us, q, htiles, hrun, ?_⟩
  rw [hrun.whole]
  obtain hend | ⟨hfront, hnone⟩ := hleft
  · exact .inl ⟨hend, by rw [scanFrom_unended hend]; rfl⟩
  · cases hnext : nextToken q left with
    | ok t => exact absurd hnext (hnone q t)
    | error e => exact .inr ⟨hfront, e, rfl, by rw [hfront.scanFrom, hnext]; rfl⟩

theorem TilesUpTo.tiles (h : TilesUpTo left cs) (hleft : Unended left) : ∃ ws, Tiles cs ws := by
  induction h with
  | here hgap => exact ⟨_, .done hgap hleft⟩
  | token hgap hglued htext hseam _ ih =>
    obtain ⟨ws, hws⟩ := ih
    exact ⟨_, .token hgap hglued htext hseam hws⟩

/-- **A text that is scanned falls into pieces.** -/
theorem tiles_of_scanFrom {ts : List Token} (h : scanFrom p cs = .ok ts) : Tiles cs (ts.map content) := by
  obtain ⟨left, us, q, htiles, -, ⟨hend, -⟩ | ⟨-, e, -, herror⟩⟩ := scanFrom_cases p cs
  · obtain ⟨ws, hws⟩ := htiles.tiles hend
    obtain ⟨ts', hts', rfl⟩ := scanFrom_of_tiles hws p
    rw [hts'] at h
    cases h
    exact hws
  · rw [herror] at h
    cases h

/-- **Tokens partition the source.** A source is scanned with tokens of some kinds and values if and only
if it falls into pieces that have these: gaps of blanks and comments, and between them the lexemes, each
as long as it can be, with the kind that it dictates and itself as the value, or, for a string literal,
the text that it spells between its quotes. The end of the input comes last and takes up nothing. -/
theorem scan_eq_ok_iff_tiles (source : String) (ws : List (Kind × String)) :
    (∃ ts, scan source = .ok ts ∧ ts.map content = ws) ↔ Tiles source.toList ws := by
  constructor
  · rintro ⟨ts, hts, rfl⟩
    exact tiles_of_scanFrom hts
  · exact fun h => scanFrom_of_tiles h .start

/-! ## The texts of tokens -/

theorem formed_of_lexeme (h : Lexeme text rest w) (p : Position) : Formed ⟨w.1, w.2, p⟩ := by
  have hdouble : ∀ x ∈ doubleSymbols, x.2 ∉ [Kind.identifier, .number, .text, .endOfInput] := by decide
  have hsingle : ∀ x ∈ symbols, x.2 ∉ [Kind.identifier, .number, .text, .endOfInput] := by decide
  cases h with
  | double hmem => exact .mark (hdouble _ hmem)
  | single hmem => exact .mark (hsingle _ hmem)
  | @word c cs _ hc hcs =>
    rcases wordKind_cases (String.ofList (c :: cs)) with hkind | hkind
    · exact .name hkind String.toList_ofList hc hcs
    · exact .mark hkind
  | whole hds =>
    refine .number rfl ?_
    rw [String.toList_ofList]
    exact fun c hc => .inl (hds c hc)
  | decimal hds hes =>
    refine .number rfl ?_
    rw [String.toList_ofList]
    exact forall_mem_append.2 ⟨fun c hc => .inl (hds c hc),
      forall_mem_cons.2 ⟨.inr rfl, fun c hc => .inl (hes c hc)⟩⟩
  | text => exact .text rfl

theorem scanFrom_formed {ts : List Token} (h : scanFrom p cs = .ok ts) :
    ∃ us eof, ts = us ++ [eof] ∧ (∀ t ∈ us, Formed t) ∧ eof.kind = .endOfInput := by
  have htiles := tiles_of_scanFrom h
  clear h
  generalize hws : ts.map content = ws at htiles
  induction htiles generalizing ts with
  | done =>
    obtain ⟨eof, rfl, heof⟩ := map_eq_singleton_iff.1 hws
    exact ⟨[], eof, rfl, forall_mem_nil _, congrArg Prod.fst heof⟩
  | token _ _ htext _ _ ih =>
    obtain ⟨t, us, rfl, rfl, hus⟩ := map_eq_cons_iff.1 hws
    obtain ⟨vs, eof, rfl, hvs, heof⟩ := ih hus
    exact ⟨t :: vs, eof, rfl, forall_mem_cons.2 ⟨formed_of_lexeme htext t.position, hvs⟩, heof⟩

end Token

end ScriptWorkbench
