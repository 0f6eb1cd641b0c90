/-
Sources that are read as a whole: they are accepted and every token belongs to an item of the program.

**If a line end stands between two such sources, the result is read as a whole, and its program consists of
theirs.** At the joint nothing of the first source is open: no string, no comment, and no statement that an
`else` could go on with, as no item starts with one. Line comments and texts without tokens are read as the
empty program.
-/
import ScriptWorkbench.Proofs.Offside
import ScriptWorkbench.Proofs.Placement
import ScriptWorkbench.Proofs.ScannedLines

namespace ScriptWorkbench

open Ast Token Grammar List

variable {source : String} {p : Program}

namespace Grammar

variable {us : List Token}

/-! ## Items further down -/

section Down

variable (n : Nat)

/-- **The tokens of an item can stand elsewhere.** The parser reads them, and it does not look at places. -/
theorem Makes.down {item : Item} (h : Makes item us) : Makes item (us.map (Token.down n)) := by
  let eof := Parser.someToken .endOfInput
  let budget := 16 * (us ++ [eof]).length + 10
  have hread : Parser.item budget (us ++ [eof]) = .ok (item, [eof]) :=
    Parser.item_of_makes h (by decide) (Nat.le_refl _)
  have hsame : (us.map (Token.down n) ++ [eof]).map Token.unplaced = (us ++ [eof]).map Token.unplaced := by
    rw [map_append, map_append, map_map]
    rfl
  have hblind := (Parser.stepwise_item budget).blind
  have hagain := hblind (us.map (Token.down n) ++ [eof])
  have hmeets := Parser.item_meets budget (us.map (Token.down n) ++ [eof])
  rw [hsame, hblind, hread] at hagain
  cases hitem : Parser.item budget (us.map (Token.down n) ++ [eof]) with
  | error e =>
    rw [hitem] at hagain
    cases hagain
  | ok x =>
    obtain ⟨i, rest⟩ := x
    rw [hitem] at hagain hmeets
    obtain ⟨vs, hvs, -, hmakes⟩ := hmeets
    obtain ⟨rfl, hrest⟩ := Prod.mk.inj (Except.ok.inj hagain)
    have hlength : [eof].length = rest.length := by simpa using congrArg length hrest
    obtain ⟨rfl, -⟩ := append_inj' hvs hlength
    exact hmakes

def Piece.down (p : Piece) : Piece := ⟨p.item, p.tokens.map (Token.down n), p.makes.down n⟩

theorem Piece.join_append (pieces pieces' : List Piece) :
    join (pieces ++ pieces') = join pieces ++ join pieces' := by
  rw [join, map_append, flatten_append]
  rfl

theorem Piece.join_down (pieces : List Piece) :
    Piece.join (pieces.map (Piece.down n)) = (Piece.join pieces).map (Token.down n) := by
  rw [Piece.join, Piece.join, map_flatten, map_map, map_map]
  rfl

theorem Piece.program_down (pieces : List Piece) :
    Piece.program (pieces.map (Piece.down n)) = Piece.program pieces := by
  rw [Piece.program, map_map]
  rfl

end Down

end Grammar

/-! ## Programs behind one another -/

def Program.empty : Program := ⟨[], [], []⟩

/-- Programs behind one another: the functions of all of them in order, their loose statements and their
classes. -/
def Program.concat (ps : List Program) : Program :=
  ⟨ps.flatMap Program.functions, ps.flatMap Program.statements, ps.flatMap Program.classes⟩

theorem Program.concat_cons (p : Program) (ps : List Program) :
    concat (p :: ps) = concat [p, concat ps] := by
  simp [concat]

theorem Grammar.Piece.program_append (pieces pieces' : List Grammar.Piece) :
    Piece.program (pieces ++ pieces') = Program.concat [Piece.program pieces, Piece.program pieces'] := by
  induction pieces with
  | nil => simp [Program.concat, Piece.program, assemble]
  | cons piece pieces ih =>
    have hcons (qs : List Grammar.Piece) :
        Piece.program (piece :: qs) = piece.item.addTo (Piece.program qs) := rfl
    rw [cons_append, hcons, hcons, ih]
    cases piece.item <;> rfl

/-! ## Reading as a whole -/

/-- **The source is read as a whole:** it is accepted, and its tokens are those of the program's items in
order and the end of the input. -/
def ReadsWhole (source : String) (p : Program) : Prop :=
  ∃ ts, readProgram source = .ok (ts, p) ∧ ∃ pieces eof,
    ts = Grammar.Piece.join pieces ++ [eof] ∧ eof.kind = .endOfInput ∧ p = Grammar.Piece.program pieces

theorem readsWhole_of_scan {pieces : List Grammar.Piece} {eof : Token}
    (hscan : scan source = .ok (Grammar.Piece.join pieces ++ [eof])) (heof : eof.kind = .endOfInput) :
    ReadsWhole source (Grammar.Piece.program pieces) := by
  have hcovers : Covers (Grammar.Piece.program pieces) (Grammar.Piece.join pieces) :=
    ⟨pieces, [], by rw [append_nil], rfl, .inl rfl⟩
  have hparse : Parser.parse (Grammar.Piece.join pieces ++ [eof]) = .ok _ :=
    topLevel_of_covers hcovers heof (by rw [Parser.budget]; omega)
  exact ⟨_, readProgram_of_parse hscan hparse, pieces, eof, rfl, heof, rfl⟩

theorem ReadsWhole.exists_pieces (h : ReadsWhole source p) :
    ∃ pieces eof, scan source = .ok (Grammar.Piece.join pieces ++ [eof]) ∧ eof.kind = .endOfInput ∧
      p = Grammar.Piece.program pieces := by
  obtain ⟨ts, hread, pieces, eof, rfl, heof, hp⟩ := h
  exact ⟨pieces, eof, (readProgram_eq_ok hread).1, heof, hp⟩

/-- A statement that starts at one of the tokens reaches the end of the input and breaks off there. -/
def breaksOff (ts : List Token) : Bool :=
  (List.range (ts.length - 1)).any fun k => match Parser.statement (Parser.budget ts) (ts.drop k) with
    | .error (.unexpected _ found) => found.kind == .endOfInput
    | _ => false

theorem readsWhole_of_not_breaksOff {ts : List Token} (hread : readProgram source = .ok (ts, p))
    (h : breaksOff ts = false) : ReadsWhole source p := by
  obtain ⟨us, eof, rfl, heof, pieces, tail, rfl, rfl, rfl | htail⟩ := covers_of_readProgram hread
  · exact ⟨_, hread, pieces, eof, by rw [append_nil], heof, rfl⟩
  · have hpos : 0 < tail.length := length_pos_iff.2 htail.1
    obtain ⟨want, hfails⟩ := statement_of_breaksOff (n := Parser.budget (Piece.join pieces ++ tail ++ [eof]))
      htail heof (by simp only [Parser.budget, length_append]; omega)
    have hk := any_eq_false.1 h (Piece.join pieces).length (by simp; omega)
    rw [append_assoc, drop_left, ← append_assoc, hfails] at hk
    exact absurd (beq_iff_eq.2 heof) hk

theorem readsWhole_of_parse {ts : List Token} (hscan : scan source = .ok ts)
    (hparse : Parser.parse ts = .ok p) (h : breaksOff ts = false) : ReadsWhole source p :=
  readsWhole_of_not_breaksOff (readProgram_of_parse hscan hparse) h

theorem exists_readsWhole {α : Type} (f : Program → α) {a : α}
    (h : (readProgram source).toOption.map (fun r => (breaksOff r.1, f r.2)) = some (false, a)) :
    ∃ p, ReadsWhole source p ∧ f p = a := by
  obtain ⟨⟨ts, p⟩, hread, heq⟩ := exists_eq_ok_of_map _ h
  obtain ⟨hbreaks, ha⟩ := Prod.mk.inj heq
  exact ⟨p, readsWhole_of_not_breaksOff hread hbreaks, ha⟩

theorem readsWhole_empty_of_scan {r : Position} (h : scan source = .ok [⟨.endOfInput, "", r⟩]) :
    ReadsWhole source Program.empty := by
  have hscan : scan source = .ok (Grammar.Piece.join [] ++ [⟨.endOfInput, "", r⟩]) := h
  exact readsWhole_of_scan hscan rfl

theorem readsWhole_nothing : ReadsWhole "" Program.empty :=
  readsWhole_empty_of_scan (r := .start) (by rw [scan, String.toList_empty, scanFrom])

/-- **Two sources with a line end between them.** -/
theorem ReadsWhole.append {a b : String} {q : Program} (ha : ReadsWhole a p) (hb : ReadsWhole b q) :
    ReadsWhole (a ++ "\n" ++ b) (Program.concat [p, q]) := by
  obtain ⟨pieces, eof, hscan, -, rfl⟩ := ha.exists_pieces
  obtain ⟨pieces', eof', hscan', heof', rfl⟩ := hb.exists_pieces
  obtain ⟨us, place, hts, hmore⟩ := scanFrom_append_line hscan
  obtain ⟨rfl, -⟩ := append_inj' hts rfl
  have hboth : scan (a ++ "\n" ++ b) =
      .ok (Piece.join (pieces ++ pieces'.map (Grammar.Piece.down place.line)) ++
        [eof'.down place.line]) := by
    rw [scan] at hscan'
    rw [scan_append_line, hmore, Position.nextLine_eq_down, scanFrom_down, hscan', lowered,
      Grammar.Piece.join_append, Piece.join_down, map_append, append_assoc]
    rfl
  rw [← Piece.program_down place.line pieces', ← Piece.program_append]
  exact readsWhole_of_scan hboth heof'

/-! ## Sources without tokens -/

theorem readsWhole_comment {s : String} (h : '\n' ∉ s.toList) :
    ReadsWhole ("//" ++ s) Program.empty := by
  have hend : Unended ("//" ++ s).toList := by
    rw [String.toList_append]
    exact @Unended.comment '/' ['/'] s.toList (by decide) h
  exact readsWhole_empty_of_scan (scanFrom_unended hend .start)

def startsLexeme (c : Char) : Bool :=
  doubleSymbols.any (·.1.1 == c) || (symbols.lookup c).isSome || Text.isLetter c || c == '_' ||
    Text.isDigit c || c == '"' || c == '#'

theorem startsLexeme_of_lexeme {text rest : List Char} {w : Kind × String} (h : Lexeme text rest w) :
    ∃ c cs, text = c :: cs ∧ startsLexeme c = true := by
  have hdoubles : ∀ x ∈ doubleSymbols, startsLexeme x.1.1 = true := by decide
  have hsymbols : ∀ x ∈ symbols, startsLexeme x.1 = true := by decide
  have hdigit {c : Char} {ds : List Char} (hds : AllDigits (c :: ds)) : startsLexeme c = true := by
    simp [startsLexeme, hds c mem_cons_self]
  cases h with
  | double hmem =>
    have hc := hdoubles _ hmem
    exact ⟨_, _, rfl, hc⟩
  | single hmem =>
    have hc := hsymbols _ hmem
    exact ⟨_, _, rfl, hc⟩
  | @word c cs _ hc =>
    rw [startsWord, Bool.or_eq_true] at hc
    exact ⟨c, cs, rfl, by obtain hc | hc := hc <;> simp [startsLexeme, hc]⟩
  | whole hds | decimal hds => exact ⟨_, _, rfl, hdigit hds⟩
  | text => exact ⟨_, _, rfl, rfl⟩

theorem startsLexeme_of_isBlank {c : Char} (h : Text.isBlank c = true) : startsLexeme c = false := by
  cases hc : startsLexeme c with
  | false => rfl
  | true =>
    have hblank := Text.isBlank_eq_false hc (by decide +kernel)
    rw [h] at hblank
    cases hblank

theorem scanFrom_of_isBlank {p : Position} {cs : List Char} {ts : List Token}
    (hblank : ∀ c ∈ cs, Text.isBlank c = true) (h : scanFrom p cs = .ok ts) :
    ∃ r, ts = [⟨.endOfInput, "", r⟩] := by
  have htiles := tiles_of_scanFrom h
  generalize hws : ts.map content = ws at htiles
  cases htiles with
  | done =>
    obtain ⟨⟨kind, value, r⟩, rfl, hcontent⟩ := map_eq_singleton_iff.1 hws
    cases hcontent
    exact ⟨r, rfl⟩
  | token _ hglued htext =>
    cases hglued with
    | comment => exact absurd (hblank '/' (by simp)) (by decide)
    | nothing =>
      obtain ⟨c, cs, rfl, hc⟩ := startsLexeme_of_lexeme htext
      have hnone := startsLexeme_of_isBlank (hblank c (by simp))
      rw [hc] at hnone
      cases hnone

theorem forall_of_dropWhile_eq_nil {α : Type} {test : α → Bool} {l : List α}
    (h : l.dropWhile test = []) : ∀ a ∈ l, test a = true := by
  have hl := takeWhile_append_dropWhile (p := test) (l := l)
  rw [h, append_nil] at hl
  rw [← hl]
  exact all_eq_true.1 all_takeWhile

theorem Text.isBlank_of_trim {s : String} (h : trim s = "") : ∀ c ∈ s.toList, isBlank c = true := by
  have hchars := congrArg String.toList h
  rw [trim, String.toList_ofList, dropAround, dropEndWhile, String.toList_empty, reverse_eq_nil_iff] at hchars
  cases hd : s.toList.dropWhile isBlank with
  | nil => exact forall_of_dropWhile_eq_nil hd
  | cons c cs =>
    -- the first character behind the leading blanks would be one of the trailing ones
    have hvisible : isBlank c = false := by simpa [hd] using head?_dropWhile_not isBlank s.toList
    have hc := forall_of_dropWhile_eq_nil hchars c (by simp [hd])
    rw [hvisible] at hc
    cases hc

theorem ReadsWhole.eq_empty (h : ReadsWhole source p) (hblank : Text.trim source = "") :
    p = Program.empty := by
  obtain ⟨ts, hread, -⟩ := h
  obtain ⟨r, rfl⟩ := scanFrom_of_isBlank (Text.isBlank_of_trim hblank) (readProgram_eq_ok hread).1
  obtain ⟨ts', hread', -⟩ := readsWhole_empty_of_scan (readProgram_eq_ok hread).1
  rw [hread] at hread'
  cases hread'
  rfl

/-! ## Any number of sources -/

def ReadsEach (texts : List String) (p : Program) : Prop :=
  ∃ parts : List (String × Program), texts = parts.map Prod.fst ∧
    p = Program.concat (parts.map Prod.snd) ∧ ∀ part ∈ parts, ReadsWhole part.1 part.2

theorem readsEach_nil : ReadsEach [] Program.empty := ⟨[], rfl, rfl, fun _ h => absurd h not_mem_nil⟩

theorem ReadsEach.append {texts texts' : List String} {q : Program} (hp : ReadsEach texts p)
    (hq : ReadsEach texts' q) : ReadsEach (texts ++ texts') (Program.concat [p, q]) := by
  obtain ⟨parts, rfl, rfl, hparts⟩ := hp
  obtain ⟨parts', rfl, rfl, hparts'⟩ := hq
  refine ⟨parts ++ parts', by rw [map_append], ?_, forall_mem_append.2 ⟨hparts, hparts'⟩⟩
  simp [Program.concat]

theorem readsEach_flatMap {α : Type} {f : α → List String} {g : α → Program} {xs : List α}
    (h : ∀ x ∈ xs, ReadsEach (f x) (g x)) : ReadsEach (xs.flatMap f) (Program.concat (xs.map g)) := by
  induction xs with
  | nil => exact readsEach_nil
  | cons x xs ih =>
    obtain ⟨hx, hxs⟩ := forall_mem_cons.1 h
    rw [map_cons, Program.concat_cons]
    exact hx.append (ih hxs)

/-- **Any number of sources with line ends between them.** -/
theorem ReadsEach.intercalate {texts : List String} (h : ReadsEach texts p) :
    ReadsWhole ("\n".intercalate texts) p := by
  obtain ⟨parts, rfl, rfl, hparts⟩ := h
  induction parts with
  | nil => exact readsWhole_nothing
  | cons part parts ih =>
    obtain ⟨hpart, hrest⟩ := forall_mem_cons.1 hparts
    cases parts with
    | nil =>
      have hone : Program.concat [part.2] = part.2 := by simp [Program.concat]
      rw [map_cons, map_nil, map_cons, map_nil, hone]
      exact hpart
    | cons next parts =>
      rw [map_cons, map_cons, String.intercalate_cons_cons, map_cons, Program.concat_cons]
      exact hpart.append (ih hrest)

end ScriptWorkbench
