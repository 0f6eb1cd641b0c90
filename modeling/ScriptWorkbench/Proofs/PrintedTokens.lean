/-
Scanning undoes printing (`scan_printed`).

Tokens are printed with one space between two of them; the text of a string literal is put between quotes
again, with a backslash before what needs one. A lexeme was one in front of the text that followed it when it
was scanned; in front of a space, or of the end, each one still is (`Lexeme.respelled`).
-/
import ScriptWorkbench.Proofs.Tiling

namespace ScriptWorkbench.Token

open List

variable {rest : List Char} {w : Kind × String}

/-! ## Printing -/

def escapeChar (c : Char) : List Char :=
  if c = '"' then ['\\', '"']
  else if c = '\\' then ['\\', '\\']
  else if c = '\n' then ['\\', 'n']
  else if c = '\t' then ['\\', 't']
  else [c]

def spelling (w : Kind × String) : List Char :=
  if w.1 = .text then '"' :: (w.2.toList.flatMap escapeChar ++ ['"']) else w.2.toList

def printed (ts : List Token) : String :=
  " ".intercalate (ts.map fun t => String.ofList (spelling t.content))

def Scannable (t : Token) : Prop :=
  t.kind ≠ .endOfInput ∧ ∃ source ts, scan source = .ok ts ∧ t.content ∈ ts.map content

/-! ## The lexeme of a printed token -/

theorem spells_flatMap_escapeChar (value : List Char) : Spells (value.flatMap escapeChar) value := by
  induction value with
  | nil => exact .nothing
  | cons c value ih =>
    rw [flatMap_cons, escapeChar]
    split
    next hc => exact .escaped (by rw [hc]; rfl) ih
    next hquote =>
      split
      next hc => exact .escaped (by rw [hc]; rfl) ih
      next hslash =>
        split
        next hc => exact .escaped (by rw [hc]; rfl) ih
        next =>
          split
          next hc => exact .escaped (by rw [hc]; rfl) ih
          next => exact .plain hquote hslash ih

def Separated (rest : List Char) : Prop := ∀ c ∈ rest.head?, c = ' '

theorem Separated.stopsAt (h : Separated rest) {p : Char → Bool} (hp : p ' ' = false) :
    StopsAt p rest := by
  intro c hc
  rw [h c hc, hp]

theorem Separated.head_ne (h : Separated rest) {c : Char} (hc : c ≠ ' ') :
    rest.head? ≠ some c :=
  fun hhead => hc (h c hhead)

theorem spelling_of_ne (h : w.1 ≠ .text) : spelling w = w.2.toList := by rw [spelling, if_neg h]

/-- **A lexeme, printed again before a space or the end.** -/
theorem Lexeme.respelled {text rest' : List Char} (h : Lexeme text rest w) (hrest : Separated rest') :
    Lexeme (spelling w) rest' w := by
  have hdigit : StopsAt Text.isDigit rest' := hrest.stopsAt (by decide)
  cases h with
  | @double c d kind _ hmem =>
    have hall : ∀ x ∈ doubleSymbols, x.2 ≠ .text := by decide
    rw [spelling_of_ne (hall _ hmem), String.toList_ofList]
    exact .double hmem
  | @single c kind _ hmem _ =>
    have hall : ∀ x ∈ symbols, x.2 ≠ .text := by decide
    have hspace : ∀ x ∈ doubleSymbols, x.1.2 ≠ ' ' := by decide
    rw [spelling_of_ne (hall _ hmem), String.toList_ofList]
    refine .single hmem fun d hd kind' hmem' => ?_
    exact hspace _ hmem' (hrest d hd)
  | @word c cs _ hc hcs _ =>
    have hkind : wordKind (String.ofList (c :: cs)) ≠ .text := by
      obtain heq | hne := wordKind_cases (String.ofList (c :: cs))
      · rw [heq]
        decide
      · exact fun heq => hne (by rw [heq]; decide)
    rw [spelling_of_ne hkind, String.toList_ofList]
    exact .word hc hcs (hrest.stopsAt (by decide))
  | @whole c ds _ hds _ _ =>
    rw [spelling_of_ne (by simp), String.toList_ofList]
    refine .whole hds hdigit ?_
    rintro more rfl
    exact absurd (hrest '.' rfl) (by decide)
  | @decimal c ds es _ hds hes _ _ =>
    rw [spelling_of_ne (by simp), String.toList_ofList]
    refine .decimal hds hes hdigit ?_
    cases es with
    | nil => exact hrest.head_ne (by decide)
    | cons e es =>
      -- the point is followed by a digit
      intro hhead
      obtain rfl : e = '.' := Option.some.inj hhead
      exact absurd (hes '.' mem_cons_self) (by decide)
  | @text body value _ _ =>
    rw [spelling, String.toList_ofList]
    exact .text (spells_flatMap_escapeChar value)

/-! ## Printed tokens tile their text -/

theorem Tiles.exists_lexeme {cs : List Char} {ws : List (Kind × String)} (h : Tiles cs ws)
    (hw : w ∈ ws) (hend : w.1 ≠ .endOfInput) :
    ∃ text rest, Lexeme text rest w := by
  induction h with
  | done =>
    obtain rfl := mem_singleton.1 hw
    exact absurd rfl hend
  | token _ _ htext _ _ ih =>
    obtain rfl | hw := mem_cons.1 hw
    · exact ⟨_, _, htext⟩
    · exact ih hw

theorem Scannable.exists_lexeme {t : Token} (h : Scannable t) :
    ∃ text rest, Lexeme text rest t.content := by
  obtain ⟨hend, source, ts, hscan, hmem⟩ := h
  exact (tiles_of_scanFrom hscan).exists_lexeme hmem hend

theorem toList_printed_cons (t : Token) (ts : List Token) :
    (printed (t :: ts)).toList = spelling t.content ++
      if ts.isEmpty then [] else ' ' :: (printed ts).toList := by
  cases ts with
  | nil => simp [printed]
  | cons u ts =>
    rw [printed, map_cons, map_cons, String.intercalate_cons_cons, String.toList_append,
      String.toList_append, String.toList_ofList, append_assoc]
    rfl

theorem tiles_printed {ts : List Token} (h : ∀ t ∈ ts, Scannable t) :
    Tiles (printed ts).toList (ts.map content ++ [(.endOfInput, "")]) := by
  induction ts with
  | nil => exact .done .nothing .nothing
  | cons t ts ih =>
    obtain ⟨ht, hts⟩ := forall_mem_cons.1 h
    obtain ⟨text, rest, htext⟩ := ht.exists_lexeme
    -- behind the token stands nothing, or a space and then the other tokens
    have hothers : ∃ rest', Separated rest' ∧ (printed (t :: ts)).toList = spelling t.content ++ rest' ∧
        Tiles rest' (ts.map content ++ [(.endOfInput, "")]) := by
      refine ⟨_, ?_, toList_printed_cons t ts, ?_⟩
      · split
        · rintro c ⟨⟩
        · rintro c ⟨⟩
          rfl
      · split
        next hnil =>
          rw [isEmpty_iff.1 hnil]
          exact .done .nothing .nothing
        next => exact (ih hts).behind (.blank rfl .nothing)
    obtain ⟨rest', hseparated, htoList, htiles⟩ := hothers
    have hpiece := Tiles.token .nothing .nothing (htext.respelled hseparated)
      (fun _ => ⟨hseparated.head_ne (by decide), fun _ => hseparated.head_ne (by decide)⟩) htiles
    rw [htoList]
    exact hpiece

/-- **Scanning undoes printing.** Tokens that the scanner can produce, each printed as a lexeme and with
single spaces between them, are scanned as tokens of the same kinds with the same values, and the end of
the input behind them. -/
theorem scan_printed (ts : List Token) (h : ∀ t ∈ ts, Scannable t) :
    ∃ us, scan (printed ts) = .ok us ∧ us.map content = ts.map content ++ [(.endOfInput, "")] :=
  scanFrom_of_tiles (tiles_printed h) .start

/-- A number with a point at its end, two points, two slashes and a string literal that needs backslashes:
in the source they stand without spaces where they can. -/
theorem scan_printed_seams :
    ∃ ts : List Token, (∀ t ∈ ts, Scannable t) ∧
      printed ts = "1. .. / / else \"a\\\"\\\\\\n\"" ∧
      ∃ us, scan (printed ts) = .ok us ∧ us.map content = ts.map content ++ [(.endOfInput, "")] := by
  let ts : List Token := [⟨.number, "1.", ⟨1, 1⟩⟩, ⟨.dotDot, "..", ⟨1, 7⟩⟩, ⟨.slash, "/", ⟨1, 9⟩⟩,
    ⟨.slash, "/", ⟨1, 11⟩⟩, ⟨.elseWord, "else", ⟨1, 12⟩⟩, ⟨.text, "a\"\\\n", ⟨1, 16⟩⟩]
  have hscan : scan "1./**/../ /else\"a\\\"\\\\\n\"" = .ok (ts ++ [⟨.endOfInput, "", ⟨1, 24⟩⟩]) :=
    eq_ok_of_toOption (by decide +kernel)
  have hts : ∀ t ∈ ts, Scannable t := by
    intro t ht
    have hkinds : ∀ t ∈ ts, t.kind ≠ .endOfInput := by decide
    exact ⟨hkinds t ht, _, _, hscan, List.mem_map_of_mem (List.mem_append_left _ ht)⟩
  exact ⟨ts, hts, by decide +kernel, scan_printed ts hts⟩

end ScriptWorkbench.Token
