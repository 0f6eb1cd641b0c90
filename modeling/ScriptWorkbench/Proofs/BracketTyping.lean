/-
Typing with a cursor that selects nothing, and what typing a bracket does.

Such a cursor cuts the text in two (`Document.between`), and what is typed goes between the two parts.
Brackets are looked for by moving the cursor, so it is asked of the window system that it goes by single
characters where a bracket is typed (`StepsSingly`). Main statement: `brackets_typed`.
-/
import ScriptWorkbench.Studio.CodeView

namespace ScriptWorkbench.Studio

open List

variable {before after : List Char} {o c : Char}

/-! ## Texts with a cursor in them -/

namespace Document

/-- The document with the cursor between two parts of its text, and nothing selected. -/
def between (before after : List Char) : Document := ⟨before ++ after, .place before.length⟩

theorem text_between : (between before after).text = before ++ after := rfl

theorem moveTo_between (before s after : List Char) :
    (between (before ++ s) after).moveTo before.length = between before (s ++ after) := by
  simp [between, moveTo, Cursor.moveTo]

theorem between_right_inj {other : List Char} :
    between before after = between before other ↔ after = other := by
  simp [between]

theorem type_between [Toolkit] (before after s : List Char) :
    (between before after).type s = between (before ++ Toolkit.stored s) after := by
  simp [type, insertWith, insertAt, between, Cursor.place, Cursor.selects, Cursor.first]

theorem reached_between [Toolkit] (m : Move) :
    (between before after).reached m = Toolkit.move m (before ++ after) before.length := rfl

end Document

open Document

namespace CodeView

/-- The next character is `c`, and it is not the last one of its line. -/
def NextWithin (c : Char) (after : List Char) : Prop := ∃ x rest, after = c :: x :: rest ∧ x ≠ '\n'

theorem nextWithin_cons_cons {x y : Char} {rest : List Char} :
    NextWithin c (x :: y :: rest) ↔ x = c ∧ y ≠ '\n' := by
  constructor
  · rintro ⟨_, _, h, hy⟩
    cases h
    exact ⟨rfl, hy⟩
  · rintro ⟨rfl, hy⟩
    exact ⟨y, rest, rfl, hy⟩

/-! ## Brackets -/

section

variable [Toolkit]

/-- **Around the cursor the window system goes by single characters.** One step on is behind the next
character; one step back from there is where the cursor was, and one step back from behind a pair is within it.
The two brackets are stored as they are, and a selection of at most one character is given as the closing one
exactly if it is that one. -/
structure StepsSingly (before after : List Char) (o c : Char) : Prop where
  next : Toolkit.move .next (before ++ after) before.length =
    min (before.length + 1) (before ++ after).length
  previous : after ≠ [] → Toolkit.move .previous (before ++ after) (before.length + 1) = before.length
  withinPair : Toolkit.move .previous (before ++ [o, c] ++ after) (before.length + 2) = before.length + 1
  stored : ∀ s, s ⊆ [o, c] → Toolkit.stored s = s
  selected : ∀ s : List Char, s.length ≤ 1 → (Toolkit.selected s = [c] ↔ s = [c])

theorem document_noteTyped (v : CodeView) : v.noteTyped.document = v.document := by
  rw [noteTyped]
  split <;> rfl

theorem document_press {t : Theme} {v : CodeView} {c : Char} (hc : c ≠ ' ') :
    (v.press t .other (String.singleton c)).document = (v.typeText [c]).document := by
  have htext : ¬String.singleton c = " " := fun h => hc (by simpa using congrArg String.toList h)
  rw [press, if_neg (by simp), if_neg htext, pressPlain, if_neg (by decide), document_noteTyped,
    String.toList_singleton]

theorem press_opening (t : Theme) (v : CodeView) (hpair : Marks.closingOf o = some c) :
    (v.press t .other (String.singleton o)).document = typeOpening o c v.document := by
  unfold Marks.closingOf at hpair
  split at hpair <;> cases hpair <;> exact document_press (by decide)

theorem press_closing (t : Theme) (v : CodeView) (hpair : Marks.closingOf o = some c) :
    (v.press t .other (String.singleton c)).document = typeClosing c v.document := by
  unfold Marks.closingOf at hpair
  split at hpair <;> cases hpair <;> exact document_press (by decide)

theorem typePair_between (h : StepsSingly before after o c) :
    typePair o c (between before after) = between (before ++ [o]) (c :: after) := by
  have hplace : (between (before ++ [o, c]) after).reached .previous = (before ++ [o]).length := by
    rw [reached_between, length_append, length_append]
    exact h.withinPair
  rw [typePair, type_between, h.stored _ (Subset.refl _), hplace, append_cons]
  exact moveTo_between (before ++ [o]) [c] after

/-- A cursor that has stepped over the next character, if there is one, selects the closing bracket exactly if
that character is one. -/
theorem selected_next_iff (h : StepsSingly before after o c) {cursor : Cursor}
    (hfirst : cursor.first = before.length)
    (hlast : cursor.last = min (before.length + 1) (before ++ after).length) :
    (between before after).selected cursor = [c] ↔ after.head? = some c := by
  have hslice : slice (before ++ after) before.length (min (before.length + 1) (before ++ after).length) =
      after.take 1 := by
    rw [slice, drop_left, length_append]
    cases after <;> simp
  rw [Document.selected, hfirst, hlast, between, hslice, h.selected _ (length_take_le ..)]
  cases after <;> simp

theorem selectedAfter_between_iff (h : StepsSingly before after o c) :
    selectedAfter (between before after) = [c] ↔ after.head? = some c := by
  rw [selectedAfter, reached_between, h.next]
  refine selected_next_iff h ?_ ?_ <;>
    simp [between, Cursor.dragTo, Cursor.place, Cursor.first, Cursor.last]

theorem charAfter_between_iff (h : StepsSingly before after o c) :
    charAfter (between before after) = [c] ↔ NextWithin c after := by
  have hstep := h.next
  cases after with
  | nil =>
    have hstay : (between before []).reached .next = before.length := by
      rw [reached_between, hstep]
      simp
    simp [charAfter, hstay, text_between, NextWithin, lineEnd]
  | cons x rest =>
    rw [length_append, length_cons, Nat.min_eq_left (by omega)] at hstep
    have hselected : (between before (x :: rest)).selected ⟨before.length, before.length + 1⟩ = [c] ↔
        (x :: rest).head? = some c :=
      selected_next_iff h (by simp [Cursor.first]) (by simp [Cursor.last])
    have hchar : charAfter (between before (x :: rest)) =
        if rest.takeWhile inLine = [] then []
        else (between before (x :: rest)).selected ⟨before.length, before.length + 1⟩ := by
      simp [charAfter, reached_between, hstep, text_between, h.previous, lineEnd]
    cases rest with
    | nil => simp [hchar, NextWithin]
    | cons y rest =>
      rw [hchar, nextWithin_cons_cons]
      by_cases hy : y = '\n'
      · simp [hy, inLine]
      · rw [takeWhile_cons_of_pos (by simpa [inLine] using hy), if_neg (by simp), hselected]
        simp [hy]

/-- **Typing brackets,** at any place around which the cursor goes by single characters. An opening bracket is
typed alone exactly if its counterpart is the next character and not the last of its line, so it does what is
expected of it everywhere but before a counterpart that ends a line. A closing bracket before its like is not
typed, and the cursor stays before it. -/
theorem brackets_typed (t : Theme) {v : CodeView} (hv : v.document = between before after)
    (hpair : Marks.closingOf o = some c) (hsteps : StepsSingly before after o c) :
    (NextWithin c after →
        (v.press t .other (String.singleton o)).document = between (before ++ [o]) after) ∧
      (¬NextWithin c after →
        (v.press t .other (String.singleton o)).document = between (before ++ [o]) (c :: after)) ∧
      (after.head? = some c →
        ((v.press t .other (String.singleton o)).document = between (before ++ [o]) after ↔
          NextWithin c after)) ∧
      (after.head? = some c → (v.press t .other (String.singleton c)).document = v.document) ∧
      (after.head? ≠ some c →
        (v.press t .other (String.singleton c)).document = between (before ++ [c]) after) := by
  have hafter := charAfter_between_iff hsteps
  have hopen (h : ¬NextWithin c after) :
      typeOpening o c (between before after) = between (before ++ [o]) (c :: after) := by
    rw [typeOpening, if_neg (mt hafter.1 h), typePair_between hsteps]
  have halone (h : NextWithin c after) :
      typeOpening o c (between before after) = between (before ++ [o]) after := by
    rw [typeOpening, if_pos (hafter.2 h), type_between, hsteps.stored _ (by simp)]
  have hclose := selectedAfter_between_iff hsteps
  rw [press_opening t v hpair, press_closing t v hpair, hv]
  refine ⟨halone, hopen, fun _ => ⟨fun heq => ?_, halone⟩, fun h => ?_, fun h => ?_⟩
  · refine Classical.byContradiction fun hnot => ?_
    rw [hopen hnot, between_right_inj] at heq
    simpa using congrArg List.length heq
  · rw [typeClosing, if_pos (hclose.2 h)]
  · rw [typeClosing, if_neg (mt hclose.1 h), type_between, hsteps.stored _ (by simp)]

end

def ofDocument (d : Document) : CodeView := ⟨d, checkedLanguage, none, [], true⟩

attribute [local instance] Toolkit.standard

/-- The plain window system goes by single characters everywhere. -/
theorem stepsSingly_plain (before after : List Char) (o : Char) (hblank : c ≠ ' ') (hline : c ≠ '\n') :
    StepsSingly before after o c where
  next := rfl
  previous _ := rfl
  withinPair := rfl
  stored _ _ := rfl
  selected s hs := by
    obtain rfl | ⟨x, rfl⟩ : s = [] ∨ ∃ x, s = [x] := by
      cases s with
      | nil => exact .inl rfl
      | cons x s => exact .inr ⟨x, by simpa using hs⟩
    · simp [Toolkit.selected]
    · by_cases hx : x = '\n'
      · simp [Toolkit.selected, hx, hblank.symm, hline.symm]
      · simp [Toolkit.selected, hx]

theorem brackets_typed_within :
    (ofDocument (between ['a'] [')', ';'])).document = between ['a'] [')', ';'] ∧
      Marks.closingOf '(' = some ')' ∧ StepsSingly ['a'] [')', ';'] '(' ')' ∧
      ((ofDocument (between ['a'] [')', ';'])).press default .other (String.singleton '(')).document =
        between ['a', '('] [')', ';'] := by
  have hsteps : StepsSingly ['a'] [')', ';'] '(' ')' := stepsSingly_plain _ _ _ (by decide) (by decide)
  exact ⟨rfl, rfl, hsteps, (brackets_typed default (v := ofDocument _) rfl rfl hsteps).1
    ⟨';', [], rfl, by decide⟩⟩

/-- Before a closing bracket that ends the text an opening one brings another along, and a closing one
leaves the cursor where it is. -/
theorem brackets_at_line_end :
    ((ofDocument (between [] [')'])).press default .other "(").document = between ['('] [')', ')'] ∧
      ((ofDocument (between [] [')'])).press default .other ")").document = between [] [')'] := by
  decide +kernel

end CodeView

end ScriptWorkbench.Studio
