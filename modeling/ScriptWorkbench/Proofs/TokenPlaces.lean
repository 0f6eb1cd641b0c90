/-
Where the tokens of a source stand.

The place of a token can be counted out: one line for each line feed before its first character, and one
column for each character behind the last of them. The scanner counts right between tokens. In a comment
between `/*` and `*/` a line feed begins a line and is then taken for a character of it; in a string literal a
line feed is a character like any other (`token_places_exact_iff`).
-/
import ScriptWorkbench.Proofs.Tiling

namespace ScriptWorkbench.Token

open List

variable {cs : List Char}

/-! ## Counting -/

/-- **The place of what stands behind a text:** the line feeds of the text, and the characters behind the
last of them. -/
def place (before : List Char) : Position :=
  ⟨1 + before.count '\n', 1 + (before.reverse.takeWhile (· ≠ '\n')).length⟩

theorem start_after_reverse (cs : List Char) :
    Position.start.after cs.reverse = ⟨1 + cs.count '\n', 1 + (cs.takeWhile (· ≠ '\n')).length⟩ := by
  induction cs with
  | nil => rfl
  | cons c cs ih =>
    rw [reverse_cons, Position.after_append, ih, Position.after_cons, Position.afterGap]
    by_cases hc : c = '\n'
    · rw [hc, count_cons_self]
      rfl
    · rw [if_neg hc, count_cons_of_ne hc, takeWhile_cons_of_pos (by simpa using hc)]
      rfl

theorem start_after (before : List Char) : Position.start.after before = place before := by
  have hplace := start_after_reverse before.reverse
  rwa [reverse_reverse, count_reverse] at hplace

theorem place_append (cs ds : List Char) : place (cs ++ ds) = (place cs).after ds := by
  rw [← start_after, ← start_after, Position.after_append]

namespace Position

theorem line_after (p : Position) (cs : List Char) : (p.after cs).line = p.line + cs.count '\n' := by
  induction cs generalizing p with
  | nil => rfl
  | cons c cs ih =>
    rw [after_cons, ih, afterGap, count_cons]
    by_cases hc : c = '\n'
    · rw [if_pos hc, if_pos (by simpa using hc), nextLine, Nat.add_assoc, Nat.add_comm 1]
    · rw [if_neg hc, if_neg (by simpa using hc)]
      rfl

theorem after_of_not_mem {cs : List Char} (h : '\n' ∉ cs) (p : Position) :
    p.after cs = p.advance cs.length := by
  induction cs generalizing p with
  | nil => rfl
  | cons c cs ih =>
    rw [mem_cons, not_or] at h
    rw [after_cons, afterGap, if_neg (Ne.symm h.1), ih h.2, advance_advance, length_cons, Nat.add_comm]

end Position

theorem count_widened (cs : List Char) : (widened cs).count '\n' = cs.count '\n' := by
  induction cs with
  | nil => rfl
  | cons c cs ih =>
    rw [widened, flatMap_cons, ← widened, count_append, ih]
    by_cases hc : c = '\n'
    · rw [if_pos hc, hc, count_cons_self, count_cons_self]
      exact Nat.add_comm 1 _
    · rw [if_neg hc, count_cons_of_ne hc, count_cons_of_ne hc]
      exact Nat.zero_add _

theorem widened_of_not_mem (h : '\n' ∉ cs) : widened cs = cs := by
  induction cs with
  | nil => rfl
  | cons c cs ih =>
    rw [mem_cons, not_or] at h
    rw [widened, flatMap_cons, ← widened, if_neg (Ne.symm h.1), ih h.2]
    rfl

theorem column_after_widened (h : '\n' ∈ cs) (p q : Position) :
    (p.after (widened cs)).column = (q.after cs).column + 1 := by
  induction cs generalizing p q with
  | nil => exact absurd h not_mem_nil
  | cons c cs ih =>
    rw [Position.after_widened_cons, Position.after_cons]
    by_cases hmore : '\n' ∈ cs
    · exact ih hmore _ _
    · obtain rfl : '\n' = c := (mem_cons.1 h).resolve_right hmore
      rw [widened_of_not_mem hmore, Position.after_of_not_mem hmore, Position.after_of_not_mem hmore]
      exact Nat.add_right_comm 1 1 cs.length

theorem after_widened_eq_iff (p : Position) (cs : List Char) :
    p.after (widened cs) = p.after cs ↔ '\n' ∉ cs := by
  constructor
  · intro heq hfeed
    have hcolumn := column_after_widened hfeed p p
    rw [heq] at hcolumn
    exact absurd hcolumn (Nat.ne_of_lt (Nat.lt_succ_self _))
  · intro h
    rw [widened_of_not_mem h]

/-! ## Pieces of a source -/

/-- A token in its source: blanks and line comments, the comments glued to it, its lexeme, and what it is. -/
structure Tile where
  gap : List Char
  glued : List Char
  text : List Char
  content : Kind × String

/-- **A text laid out in pieces.** The end of the input is the last one and has no lexeme. -/
inductive LaidOut : List Char → List Tile → Prop where
  | done {gap tail : List Char} : Loose gap → Unended tail →
      LaidOut (gap ++ tail) [⟨gap ++ tail, [], [], (.endOfInput, "")⟩]
  | token {gap glued text rest : List Char} {w : Kind × String} {tiles : List Tile} :
      Loose gap → Glued glued → Lexeme text rest w →
      (text = ['/'] → rest.head? ≠ some '*' ∧ (glued = [] → rest.head? ≠ some '/')) →
      LaidOut rest tiles → LaidOut (gap ++ (glued ++ (text ++ rest))) (⟨gap, glued, text, w⟩ :: tiles)

theorem exists_laidOut {ws : List (Kind × String)} (h : Tiles cs ws) :
    ∃ tiles, LaidOut cs tiles := by
  induction h with
  | done hgap htail => exact ⟨_, .done hgap htail⟩
  | token hgap hglued htext hslash _ ih =>
    obtain ⟨tiles, htiles⟩ := ih
    exact ⟨_, .token hgap hglued htext hslash htiles⟩

def exactPlaces (before : List Char) : List Tile → List Position
  | [] => []
  | t :: tiles =>
    place (before ++ (t.gap ++ t.glued)) :: exactPlaces (before ++ (t.gap ++ t.glued) ++ t.text) tiles

def countedPlaces (p : Position) : List Tile → List Position
  | [] => []
  | t :: tiles =>
    p.after (t.gap ++ widened t.glued) ::
      countedPlaces ((p.after (t.gap ++ widened t.glued)).advance t.text.length) tiles

theorem scanFrom_of_laidOut {tiles : List Tile} (h : LaidOut cs tiles) (p : Position) :
    ∃ ts, scanFrom p cs = .ok ts ∧ ts.map content = tiles.map Tile.content ∧
      ts.map position = countedPlaces p tiles := by
  induction h generalizing p with
  | @done gap tail hgap htail =>
    refine ⟨_, by rw [scanFrom_loose hgap, scanFrom_unended htail], rfl, ?_⟩
    rw [← Position.after_append, countedPlaces, widened, flatMap_nil, append_nil]
    rfl
  | @token gap glued text rest w tiles hgap hglued htext hslash _ ih =>
    obtain ⟨ts, hts, hcontent, hplaces⟩ := ih ((p.after (gap ++ widened glued)).advance text.length)
    refine ⟨_ :: ts, by rw [scanFrom_piece hgap hglued htext hslash, hts]; rfl, ?_, ?_⟩
    · rw [map_cons, hcontent]
      rfl
    · rw [map_cons, hplaces]
      rfl

theorem line_eq_of_countedPlaces {p : Position} {before : List Char} {tiles : List Tile}
    (hne : tiles ≠ []) (h : countedPlaces p tiles = exactPlaces before tiles) :
    p.line = (place before).line := by
  cases tiles with
  | nil => exact absurd rfl hne
  | cons t tiles =>
    have hline := congrArg Position.line (cons.inj h).1
    rw [place_append, Position.line_after, Position.line_after, count_append, count_append,
      count_widened] at hline
    exact Nat.add_right_cancel hline

/-- **The scanner counts right exactly between tokens.** -/
theorem countedPlaces_eq_iff {tiles : List Tile} (h : LaidOut cs tiles) (before : List Char) :
    countedPlaces (place before) tiles = exactPlaces before tiles ↔
      ∀ t ∈ tiles, '\n' ∉ t.glued ∧ '\n' ∉ t.text := by
  induction h generalizing before with
  | done => simp [countedPlaces, exactPlaces, place_append, widened]
  | @token gap glued text rest w tiles _ _ _ _ htiles ih =>
    rw [forall_mem_cons, countedPlaces, exactPlaces, cons.injEq, ← place_append,
      ← append_assoc, place_append, ← append_assoc before, place_append _ glued,
      after_widened_eq_iff, and_assoc]
    refine and_congr_right fun hglued => ?_
    rw [widened_of_not_mem hglued, ← place_append]
    generalize before ++ gap ++ glued = front
    -- a line feed in the lexeme costs a line, which the next token shows
    by_cases htext : '\n' ∈ text
    · have hne : tiles ≠ [] := by cases htiles <;> exact cons_ne_nil _ _
      refine iff_of_false (fun hplaces => ?_) (fun hclean => hclean.1 htext)
      have hline := line_eq_of_countedPlaces hne hplaces
      rw [place_append, Position.line_after] at hline
      have hcount := count_pos_iff.2 htext
      exact absurd hline (Nat.ne_of_lt (Nat.lt_add_of_pos_right hcount))
    · rw [← Position.after_of_not_mem htext, ← place_append, ih, and_iff_right htext]

/-- **When the places of tokens are exact.** A source that is scanned is laid out in pieces; the tokens are
those of the pieces, at the places that the scanner counts, and these are the exact ones, for all tokens with
the end of the input, if and only if no line feed stands in a comment between `/*` and `*/` or in the lexeme
of a token, which can only be a string literal. -/
theorem token_places_exact_iff (source : String) (ts : List Token) (h : scan source = .ok ts) :
    (∃ tiles, LaidOut source.toList tiles) ∧ ∀ tiles, LaidOut source.toList tiles →
      ts.map content = tiles.map Tile.content ∧ ts.map position = countedPlaces .start tiles ∧
      (ts.map position = exactPlaces [] tiles ↔ ∀ t ∈ tiles, '\n' ∉ t.glued ∧ '\n' ∉ t.text) := by
  refine ⟨exists_laidOut (tiles_of_scanFrom h), fun tiles htiles => ?_⟩
  obtain ⟨us, hus, hcontent, hplaces⟩ := scanFrom_of_laidOut htiles .start
  obtain rfl : ts = us := Except.ok.inj (h.symm.trans hus)
  refine ⟨hcontent, hplaces, ?_⟩
  rw [hplaces]
  exact countedPlaces_eq_iff htiles []

/-- A comment of two lines before a name. -/
theorem token_places_exact_iff_comment :
    scan "/*\n*/x" = .ok [⟨.identifier, "x", ⟨2, 4⟩⟩, ⟨.endOfInput, "", ⟨2, 5⟩⟩] ∧
      ∃ tiles, LaidOut "/*\n*/x".toList tiles ∧ countedPlaces .start tiles = [⟨2, 4⟩, ⟨2, 5⟩] ∧
        ([⟨2, 4⟩, ⟨2, 5⟩] = exactPlaces [] tiles ↔ ∀ t ∈ tiles, '\n' ∉ t.glued ∧ '\n' ∉ t.text) := by
  have hscan : scan "/*\n*/x" = .ok [⟨.identifier, "x", ⟨2, 4⟩⟩, ⟨.endOfInput, "", ⟨2, 5⟩⟩] :=
    eq_ok_of_toOption (by decide +kernel)
  obtain ⟨⟨tiles, htiles⟩, hall⟩ := token_places_exact_iff _ _ hscan
  obtain ⟨-, hcounted, hexact⟩ := hall tiles htiles
  exact ⟨hscan, tiles, htiles, hcounted.symm, hexact⟩

/-- A comment of two lines puts the name behind it one column too far to the right, and a string literal of
two lines leaves the end of the input on the first. -/
theorem token_places_wrong :
    (scan "/*\n*/x" = .ok [⟨.identifier, "x", ⟨2, 4⟩⟩, ⟨.endOfInput, "", ⟨2, 5⟩⟩] ∧
        place "/*\n*/".toList = ⟨2, 3⟩) ∧
      scan "\"a\nb\"" = .ok [⟨.text, "a\nb", ⟨1, 1⟩⟩, ⟨.endOfInput, "", ⟨1, 6⟩⟩] ∧
        place "\"a\nb\"".toList = ⟨2, 3⟩ :=
  ⟨⟨eq_ok_of_toOption (by decide +kernel), by decide +kernel⟩, eq_ok_of_toOption (by decide +kernel),
    by decide +kernel⟩

end ScriptWorkbench.Token
