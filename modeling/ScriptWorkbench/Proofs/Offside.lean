/-
Nesting read from indentation.

The block under a line is made up of the lines behind it that stand deeper, up to the next one that does not.
This file reads a text in that way, without knowing what the lines say (`outline?`): blank lines are skipped,
four spaces make a level, and a level may only go up by one at a time. **Reading undoes writing**
(`offside_flatten`). For texts of lines this takes more care, since trimming must not reach into a line and no
line may bring spaces of its own or a line break; such lines are called plain (`outline?_bodyText`).
-/
import Mathlib.Data.List.Induction
import ScriptWorkbench.Proofs.SourcePrograms

namespace ScriptWorkbench

open List

namespace Text

variable {r s : String} {c : Char}

/-! ## Characters that are not blank -/

def points (ranges : List (Nat × Nat)) : List Nat := ranges.flatMap fun r => List.range' r.1 (r.2 + 1 - r.1)

theorem mem_points {ranges : List (Nat × Nat)} {n : Nat} (h : inRanges ranges n = true) :
    n ∈ points ranges := by
  obtain ⟨r, hr, hin⟩ := any_eq_true.1 h
  rw [Bool.and_eq_true, decide_eq_true_iff, decide_eq_true_iff] at hin
  refine mem_flatMap.2 ⟨r, hr, mem_range'_1.2 ?_⟩
  omega

def blankPoints : List Nat := points ((9, 13) :: (28, 32) :: blankRanges)

theorem mem_blankPoints (h : isBlank c = true) : c.toNat ∈ blankPoints := by
  refine mem_points ?_
  rw [isBlank, hasProperty] at h
  rw [inRanges, any_cons, any_cons]
  split at h
  · rw [← Bool.or_assoc, h, Bool.true_or]
  · rw [inRanges] at h
    rw [h, Bool.or_true, Bool.or_true]

theorem isBlank_eq_false {p : Char → Bool} (h : p c = true)
    (hall : blankPoints.all (fun n => !p (Char.ofNat n)) = true) : isBlank c = false := by
  cases hc : isBlank c with
  | false => rfl
  | true =>
    have hn := all_eq_true.1 hall _ (mem_blankPoints hc)
    rw [Char.ofNat_toNat, h] at hn
    cases hn

theorem isBlank_of_isDigit (h : c.isDigit = true) : isBlank c = false :=
  isBlank_eq_false h (by decide +kernel)

theorem isBlank_of_isNameChar (h : Token.isNameChar c = true) : isBlank c = false :=
  isBlank_eq_false h (by decide +kernel)

/-! ## Blanks at the end -/

def EndsVisibly (s : String) : Prop := ∃ c, s.toList.getLast? = some c ∧ isBlank c = false

theorem EndsVisibly.append (r : String) (h : EndsVisibly s) :
    EndsVisibly (r ++ s) := by
  obtain ⟨c, hc, hblank⟩ := h
  refine ⟨c, ?_, hblank⟩
  rw [String.toList_append, getLast?_append, hc]
  rfl

def Blankless (s : String) : Prop := s.toList ≠ [] ∧ ∀ c ∈ s.toList, isBlank c = false

theorem Blankless.endsVisibly (h : Blankless s) : EndsVisibly s :=
  ⟨_, getLast?_eq_some_getLast h.1, h.2 _ (getLast_mem h.1)⟩

theorem EndsVisibly.trimEnd_eq (h : EndsVisibly s) : trimEnd s = s := by
  obtain ⟨c, hc, hblank⟩ := h
  obtain ⟨cs, hcs⟩ := getLast?_eq_some_iff.1 hc
  have hstop : (c :: cs.reverse).dropWhile isBlank = c :: cs.reverse := by
    rw [dropWhile_cons_of_neg (by rw [hblank]; decide)]
  rw [trimEnd, dropEndWhile, hcs, reverse_append, reverse_singleton, singleton_append,
    hstop, reverse_cons, reverse_reverse, ← hcs, String.ofList_toList]

theorem EndsVisibly.bne_empty (h : EndsVisibly s) : (s != "") = true := by
  obtain ⟨c, hc, -⟩ := h
  rw [bne_iff_ne]
  rintro rfl
  cases hc

instance (s : String) : Decidable (EndsVisibly s) :=
  decidable_of_iff (s.toList.getLast?.map isBlank = some false) Option.map_eq_some_iff

/-! ## Plain texts -/

def lineBreaks : List Char :=
  ['\n', '\r', '\x0b', '\x0c', '\x1c', '\x1d', '\x1e', '\u0085', '\u2028', '\u2029']

def Inline (s : String) : Prop := ∀ c ∈ s.toList, isBlank c = true → c = ' '

def StartsVisibly (s : String) : Prop := s.toList.head?.map isBlank = some false

/-- The text begins where its line does, and it stands on that line alone. -/
structure Plain (s : String) : Prop where
  starts : StartsVisibly s
  inline : Inline s

theorem Inline.append (hs : Inline s) (hr : Inline r) : Inline (s ++ r) := by
  rw [Inline, String.toList_append]
  exact forall_mem_append.2 ⟨hs, hr⟩

theorem Inline.not_mem (h : Inline s) {c : Char} (hc : c ∈ lineBreaks) :
    c ∉ s.toList := by
  have hall : lineBreaks.all (fun c => isBlank c && c != ' ') = true := by decide
  have hbreak := all_eq_true.1 hall c hc
  rw [Bool.and_eq_true, bne_iff_ne] at hbreak
  intro hmem
  exact hbreak.2 (h c hmem hbreak.1)

theorem StartsVisibly.append (h : StartsVisibly s) (r : String) :
    StartsVisibly (s ++ r) := by
  rw [StartsVisibly, String.toList_append, head?_append]
  cases hs : s.toList.head? with
  | none => rw [StartsVisibly, hs] at h; cases h
  | some c => rwa [StartsVisibly, hs] at h

theorem StartsVisibly.toList_eq (h : StartsVisibly s) :
    ∃ c cs, s.toList = c :: cs ∧ isBlank c = false := by
  obtain ⟨c, hc, hblank⟩ := Option.map_eq_some_iff.1 h
  obtain ⟨cs, hcs⟩ := head?_eq_some_iff.1 hc
  exact ⟨c, cs, hcs, hblank⟩

theorem Plain.append (hs : Plain s) (hr : Inline r) : Plain (s ++ r) :=
  ⟨hs.starts.append r, hs.inline.append hr⟩

/-- The text is plain, and trimming takes nothing away from its end. -/
abbrev Firm (s : String) : Prop := Plain s ∧ EndsVisibly s

theorem Plain.firm_append (hr : Plain r) (hs : Firm s) : Firm (r ++ s) :=
  ⟨hr.append hs.1.inline, hs.2.append r⟩

theorem trimEnd_append (h : ∀ c ∈ r.toList, isBlank c = true) :
    trimEnd (s ++ r) = trimEnd s := by
  have hblank : ∀ c ∈ r.toList.reverse, isBlank c = true := fun c hc => h c (mem_reverse.1 hc)
  rw [trimEnd, trimEnd, dropEndWhile, dropEndWhile, String.toList_append, reverse_append,
    dropWhile_append_of_pos hblank]

end Text

namespace Target

open Text

variable {l : Line} {lines : List Line}

/-! ## Outlines -/

/-- What the indentation of a line says: there is a block under it, or there is none. -/
inductive Outline where
  | line (text : String)
  | block (header : String) (inner : List Outline)

mutual

def Outline.flat (depth : Nat) : Outline → List Line
  | .line text => [⟨depth, text⟩]
  | .block header inner => ⟨depth, header⟩ :: flatten (depth + 1) inner

def flatten (depth : Nat) : List Outline → List Line
  | [] => []
  | o :: os => o.flat depth ++ flatten depth os

end

/-- No block is empty, at any depth. -/
inductive Full : List Outline → Prop where
  | nothing : Full []
  | line {text : String} {os : List Outline} : Full os → Full (.line text :: os)
  | block {header : String} {inner os : List Outline} : inner ≠ [] → Full inner → Full os →
      Full (.block header inner :: os)

/-- **The offside rule.** Every line of a block stands at the depth of the block, apart from those that
belong to a block further inside. -/
def offside (depth : Nat) : List Line → Option (List Outline)
  | [] => some []
  | l :: ls =>
    if l.depth = depth then do
      let inner ← offside (depth + 1) (ls.takeWhile fun m => depth < m.depth)
      let others ← offside depth (ls.dropWhile fun m => depth < m.depth)
      return (if inner.isEmpty then .line l.text else .block l.text inner) :: others
    else none
termination_by ls => ls.length
decreasing_by
  · exact Nat.lt_succ_of_le (takeWhile_sublist _).length_le
  · exact Nat.lt_succ_of_le (dropWhile_sublist _).length_le

@[simp] theorem flatten_append (depth : Nat) (os os' : List Outline) :
    flatten depth (os ++ os') = flatten depth os ++ flatten depth os' := by
  induction os with
  | nil => rfl
  | cons o os ih => rw [cons_append, flatten, flatten, ih, append_assoc]

theorem flatten_ne_nil {os : List Outline} (h : os ≠ []) (depth : Nat) : flatten depth os ≠ [] := by
  cases os with
  | nil => exact absurd rfl h
  | cons o os => cases o <;> exact cons_ne_nil _ _

theorem Full.append {os os' : List Outline} (h : Full os) (h' : Full os') : Full (os ++ os') := by
  induction h with
  | nothing => exact h'
  | line _ ih => exact .line ih
  | block hne hinner _ _ ih => exact .block hne hinner ih

theorem depth_of_head_flatten {depth : Nat} {os : List Outline} :
    ∀ l ∈ (flatten depth os).head?, l.depth = depth := by
  cases os with
  | nil => rintro l ⟨⟩
  | cons o os => cases o <;> rintro l ⟨⟩ <;> rfl

theorem le_depth_of_mem_flatten {os : List Outline} (h : Full os) {depth : Nat}
    (hl : l ∈ flatten depth os) : depth ≤ l.depth := by
  induction h generalizing depth with
  | nothing => cases hl
  | line _ ih =>
    obtain rfl | hl := mem_cons.1 hl
    · exact Nat.le_refl _
    · exact ih hl
  | block _ _ _ ihinner ihos =>
    obtain rfl | hl := mem_cons.1 hl
    · exact Nat.le_refl _
    · obtain hl | hl := mem_append.1 hl
      · exact Nat.le_of_succ_le (ihinner hl)
      · exact ihos hl

theorem deeper_append (depth : Nat) {inner : List Outline} (hinner : Full inner)
    (os : List Outline) :
    ((flatten (depth + 1) inner ++ flatten depth os).takeWhile fun m => depth < m.depth) =
        flatten (depth + 1) inner ∧
      ((flatten (depth + 1) inner ++ flatten depth os).dropWhile fun m => depth < m.depth) =
        flatten depth os := by
  have hdeeper : ∀ m ∈ flatten (depth + 1) inner, decide (depth < m.depth) = true :=
    fun m hm => decide_eq_true (le_depth_of_mem_flatten hinner hm)
  rw [takeWhile_append_of_pos hdeeper, dropWhile_append_of_pos hdeeper]
  cases hrest : flatten depth os with
  | nil => exact ⟨append_nil _, rfl⟩
  | cons m ms =>
    have hm : decide (depth < m.depth) = false := by
      rw [decide_eq_false_iff_not, depth_of_head_flatten m (by rw [hrest]; rfl)]
      exact Nat.lt_irrefl _
    rw [takeWhile_cons, dropWhile_cons, hm]
    exact ⟨append_nil _, rfl⟩

/-- **The offside rule gives an outline back.** -/
theorem offside_flatten {os : List Outline} (h : Full os) (depth : Nat) :
    offside depth (flatten depth os) = some os := by
  -- a block is read where the rule cuts it off, and `deeper_append` says that this is its own end
  induction h generalizing depth with
  | nothing => rw [flatten, offside]
  | line _ ih =>
    obtain ⟨htake, hdrop⟩ := deeper_append depth .nothing _
    rw [flatten, nil_append] at htake hdrop
    rw [flatten, Outline.flat, singleton_append, offside, if_pos rfl, htake, hdrop, offside, ih]
    rfl
  | @block header inner os hne hinner _ ihinner ihos =>
    obtain ⟨htake, hdrop⟩ := deeper_append depth hinner os
    rw [flatten, Outline.flat, cons_append, offside, if_pos rfl, htake, hdrop, ihinner, ihos]
    have hempty : inner.isEmpty = false := isEmpty_eq_false_iff.2 hne
    change some ((if inner.isEmpty then _ else _) :: os) = _
    rw [hempty]
    rfl

/-! ## Lines of a text -/

def Line.ofText? (cs : List Char) : Option Line :=
  let width := (cs.takeWhile (· == ' ')).length
  if width % 4 = 0 then some ⟨width / 4, String.ofList (cs.dropWhile (· == ' '))⟩ else none

def outline? (text : String) : Option (List Outline) := do
  let lines ← ((text.toList.splitOn '\n').filter fun cs => !cs.all isBlank).mapM Line.ofText?
  offside 0 lines

theorem Line.toList_render (l : Line) :
    l.render.toList = replicate (4 * l.depth) ' ' ++ l.text.toList := by
  rw [Line.render, String.toList_append, String.toList_ofList]

theorem Line.ofText?_render (h : StartsVisibly l.text) :
    Line.ofText? l.render.toList = some l := by
  -- the text begins visibly, so that the spaces before it are the indentation and no more
  obtain ⟨c, cs, hcs, hc⟩ := h.toList_eq
  have hspaces : ∀ d ∈ replicate (4 * l.depth) ' ', (d == ' ') = true := by
    intro d hd
    rw [eq_of_mem_replicate hd]
    rfl
  have hstop : (c == ' ') = false := by
    rw [beq_eq_false_iff_ne]
    rintro rfl
    cases hc
  have htake : l.render.toList.takeWhile (· == ' ') = replicate (4 * l.depth) ' ' := by
    rw [Line.toList_render, hcs, takeWhile_append_of_pos hspaces, takeWhile_cons, hstop]
    exact append_nil _
  have hdrop : l.render.toList.dropWhile (· == ' ') = l.text.toList := by
    rw [Line.toList_render, hcs, dropWhile_append_of_pos hspaces, dropWhile_cons, hstop]
    rfl
  rw [Line.ofText?, htake, hdrop, length_replicate, String.ofList_toList,
    if_pos (Nat.mul_mod_right 4 _), Nat.mul_div_cancel_left _ (by decide)]

theorem mapM_ofText? (h : ∀ l ∈ lines, StartsVisibly l.text) :
    (lines.map fun l => l.render.toList).mapM Line.ofText? = some lines := by
  induction lines with
  | nil => rfl
  | cons l lines ih =>
    obtain ⟨hl, hlines⟩ := forall_mem_cons.1 h
    rw [map_cons, mapM_cons, Line.ofText?_render hl, ih hlines]
    rfl

/-! ## Lines of an output -/

def lineText (lines : List Line) : String := "\n".intercalate (lines.map Line.render)

theorem lineText_append {ls ms : List Line} (hls : ls ≠ []) (hms : ms ≠ []) :
    lineText (ls ++ ms) = lineText ls ++ "\n" ++ lineText ms := by
  rw [lineText, map_append]
  exact String.intercalate_append_of_ne_nil (by simpa using hls) (by simpa using hms)

theorem endsVisibly_lineText (lines : List Line) (h : EndsVisibly l.text) :
    EndsVisibly (lineText (lines ++ [l])) := by
  have hlast : EndsVisibly (lineText [l]) := h.append _
  cases lines with
  | nil => exact hlast
  | cons m lines =>
    rw [lineText_append (cons_ne_nil m lines) (cons_ne_nil l [])]
    exact hlast.append _

def blankLine : Line := ⟨0, ""⟩

def Solid (l : Line) : Prop := Plain l.text ∧ EndsVisibly l.text

def Readable (l : Line) : Prop := l = blankLine ∨ Solid l

theorem filter_of_solid (h : ∀ l ∈ lines, Solid l) :
    lines.filter (·.text != "") = lines :=
  filter_eq_self.2 fun l hl => (h l hl).2.bne_empty

theorem Readable.inline (h : Readable l) : Inline l.render := by
  obtain rfl | ⟨hplain, -⟩ := h
  · rintro c ⟨⟩
  · rw [Inline, Line.toList_render]
    exact forall_mem_append.2 ⟨fun c hc _ => eq_of_mem_replicate hc, hplain.inline⟩

theorem Readable.all_isBlank (h : Readable l) :
    (!l.render.toList.all isBlank) = (l.text != "") := by
  obtain rfl | ⟨hplain, hend⟩ := h
  · rfl
  · obtain ⟨c, cs, hcs, hc⟩ := hplain.starts.toList_eq
    have hvisible : l.render.toList.all isBlank = false := by
      refine all_eq_false.2 ⟨c, ?_, by rw [hc]; decide⟩
      rw [Line.toList_render, hcs]
      exact mem_append_right _ mem_cons_self
    rw [hvisible, hend.bne_empty]
    rfl

theorem outline?_lineText (hne : lines ≠ []) (h : ∀ l ∈ lines, Readable l) :
    outline? (lineText lines) = offside 0 (lines.filter (·.text != "")) := by
  have hlines : (lineText lines).toList.splitOn '\n' = lines.map fun l => l.render.toList := by
    rw [lineText, String.toList_intercalate, map_map]
    refine splitOn_intercalate '\n' ?_ (by simpa using hne)
    intro cs hcs
    obtain ⟨l, hl, rfl⟩ := mem_map.1 hcs
    exact (h l hl).inline.not_mem (by decide)
  have hvisible : (lines.map fun l => l.render.toList).filter (fun cs => !cs.all isBlank) =
      (lines.filter (·.text != "")).map fun l => l.render.toList := by
    rw [filter_map]
    exact congrArg _ (filter_congr fun l hl => (h l hl).all_isBlank)
  have hstarts : ∀ l ∈ lines.filter (·.text != ""), StartsVisibly l.text := by
    intro l hl
    obtain ⟨hmem, htext⟩ := mem_filter.1 hl
    obtain rfl | ⟨hplain, -⟩ := h l hmem
    · cases htext
    · exact hplain.starts
  rw [outline?, hlines, hvisible, mapM_ofText? hstarts]
  rfl

theorem bodyText_concat_blankLine (lines : List Line) :
    bodyText (lines ++ [blankLine]) = bodyText lines := by
  cases lines with
  | nil => rfl
  | cons l lines =>
    have htext := lineText_append (cons_ne_nil l lines) (cons_ne_nil blankLine [])
    have hblank : lineText [blankLine] = "" := rfl
    have hfeed : ∀ c ∈ "\n".toList, isBlank c = true := all_eq_true.1 (by decide)
    rw [hblank, String.append_empty] at htext
    rw [bodyText, ← lineText, htext, trimEnd_append hfeed]
    rfl

/-- **The text of lines is read as the lines are,** the blank ones apart. -/
theorem outline?_bodyText (h : ∀ l ∈ lines, Readable l) :
    outline? (bodyText lines) = offside 0 (lines.filter (·.text != "")) := by
  -- from the last line on, since trimming comes from there: blank lines go until one ends visibly
  induction lines using reverseRecOn with
  | nil => rfl
  | append_singleton lines l ih =>
    obtain ⟨hlines, hl⟩ := forall_mem_append.1 h
    obtain rfl | ⟨hplain, hend⟩ := forall_mem_singleton.1 hl
    · rw [bodyText_concat_blankLine, ih hlines, filter_append]
      exact congrArg _ (append_nil _).symm
    · have hne : lines ++ [l] ≠ [] := by simp
      rw [bodyText, ← lineText, (endsVisibly_lineText lines hend).trimEnd_eq]
      exact outline?_lineText hne h

end Target

end ScriptWorkbench
