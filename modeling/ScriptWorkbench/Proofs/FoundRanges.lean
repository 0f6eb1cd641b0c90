/-
Finding in the editor.

A search goes on at the end of the range that was marked last. This end is handed over as a text, an index
with a number of characters to add, and the widget works out what it means. **The search comes to an end, and
what is marked are the leftmost occurrences that do not overlap, in order** (`find_marks_leftmost`).
-/
import ScriptWorkbench.Editor.Session

namespace ScriptWorkbench.Editor

open List

variable {term text : List Char} {m n start : Nat} {places : List Nat}

/-! ## The first occurrence -/

def Occurs (term text : List Char) (n : Nat) : Prop := term <+: text.drop n

theorem Occurs.le (h : Occurs term text n) (hterm : term ≠ []) : n + term.length ≤ text.length := by
  have hlength := h.length_le
  have hpos := length_pos_iff.2 hterm
  rw [length_drop] at hlength
  omega

/-- The first occurrence at or behind a place. -/
structure First (term text : List Char) (start n : Nat) : Prop where
  le : start ≤ n
  occurs : Occurs term text n
  least : ∀ m, start ≤ m → Occurs term text m → n ≤ m

theorem First.unique (h : First term text start n) (h' : First term text start m) : n = m :=
  Nat.le_antisymm (h.least m h'.le h'.occurs) (h'.least n h.le h.occurs)

theorem first_of_indexOf? (h : Text.indexOf? term text = some n) : First term text 0 n := by
  induction text generalizing n with
  | nil =>
    rw [Text.indexOf?] at h
    split at h
    next hterm =>
      cases h
      rw [isEmpty_iff.1 hterm]
      exact ⟨Nat.le_refl 0, nil_prefix, fun m hm _ => hm⟩
    next => cases h
  | cons c cs ih =>
    rw [Text.indexOf?] at h
    split at h
    next hhere =>
      cases h
      exact ⟨Nat.le_refl 0, (Text.isSome_dropPrefix?_iff _ _).1 hhere, fun m hm _ => hm⟩
    next hhere =>
      rw [Text.isSome_dropPrefix?_iff] at hhere
      obtain ⟨k, hk, rfl⟩ := Option.map_eq_some_iff.1 h
      refine ⟨Nat.zero_le _, (ih hk).occurs, fun m _ hm => ?_⟩
      cases m with
      | zero => exact absurd hm hhere
      | succ m => exact Nat.succ_le_succ ((ih hk).least m m.zero_le hm)

theorem occurs_drop : Occurs term (text.drop start) n ↔ Occurs term text (start + n) := by
  rw [Occurs, drop_drop, Occurs]

theorem not_occurs_of_searchFrom? (h : searchFrom? term text start = none) (hn : start ≤ n) :
    ¬Occurs term text n := by
  obtain ⟨k, rfl⟩ := Nat.exists_eq_add_of_le hn
  intro hoccurs
  have hinfix : term <:+: text.drop start := (occurs_drop.2 hoccurs).isInfix.trans (drop_suffix k _).isInfix
  rw [← Text.isSome_indexOf?_iff, Option.map_eq_none_iff.1 h] at hinfix
  cases hinfix

theorem first_of_searchFrom? (h : searchFrom? term text start = some n) : First term text start n := by
  obtain ⟨k, hk, rfl⟩ := Option.map_eq_some_iff.1 h
  obtain ⟨-, hoccurs, hleast⟩ := first_of_indexOf? hk
  refine ⟨Nat.le_add_right start k, occurs_drop.1 hoccurs, fun m hm hbefore => ?_⟩
  obtain ⟨l, rfl⟩ := Nat.exists_eq_add_of_le hm
  exact Nat.add_le_add_left (hleast l l.zero_le (occurs_drop.2 hbefore)) start

/-! ## Leftmost occurrences -/

/-- **The leftmost occurrences that do not overlap,** at or behind a place: every occurrence there begins
inside one of them. -/
structure Leftmost (term text : List Char) (start : Nat) (places : List Nat) : Prop where
  occurs : ∀ n ∈ places, start ≤ n ∧ Occurs term text n
  apart : places.Pairwise fun m n => m + term.length ≤ n
  complete : ∀ n, start ≤ n → Occurs term text n → ∃ m ∈ places, m ≤ n ∧ n < m + term.length

namespace Leftmost

theorem cons (hfirst : First term text start n) (h : Leftmost term text (n + term.length) places) :
    Leftmost term text start (n :: places) where
  occurs := forall_mem_cons.2 ⟨⟨hfirst.le, hfirst.occurs⟩, fun m hm =>
    (h.occurs m hm).imp_left fun hle => by have := hfirst.le; omega⟩
  apart := pairwise_cons.2 ⟨fun m hm => (h.occurs m hm).1, h.apart⟩
  complete m hm hoccurs := by
    by_cases hlt : m < n + term.length
    · exact ⟨n, mem_cons_self, hfirst.least m hm hoccurs, hlt⟩
    · obtain ⟨k, hk, hrange⟩ := h.complete m (by omega) hoccurs
      exact ⟨k, mem_cons_of_mem n hk, hrange⟩

theorem first (h : Leftmost term text start (n :: places)) : First term text start n := by
  obtain ⟨hle, hoccurs⟩ := h.occurs n mem_cons_self
  refine ⟨hle, hoccurs, fun m hm hbefore => ?_⟩
  obtain ⟨k, hk, hkm, -⟩ := h.complete m hm hbefore
  obtain rfl | hk := mem_cons.1 hk
  · exact hkm
  · have := rel_of_pairwise_cons h.apart hk
    omega

theorem tail (h : Leftmost term text start (n :: places)) : Leftmost term text (n + term.length) places := by
  obtain ⟨hapart, hrest⟩ := pairwise_cons.1 h.apart
  refine ⟨fun m hm => ⟨hapart m hm, (h.occurs m (mem_cons_of_mem n hm)).2⟩, hrest, fun m hm hoccurs => ?_⟩
  obtain ⟨k, hk, hrange⟩ := h.complete m (by have := h.first.le; omega) hoccurs
  obtain rfl | hk := mem_cons.1 hk
  · omega
  · exact ⟨k, hk, hrange⟩

theorem unique {others : List Nat} (h : Leftmost term text start places)
    (h' : Leftmost term text start others) : places = others := by
  induction places generalizing start others with
  | nil =>
    cases others with
    | nil => rfl
    | cons n others =>
      obtain ⟨m, hm, -⟩ := h.complete n h'.first.le h'.first.occurs
      cases hm
  | cons n places ih =>
    cases others with
    | nil =>
      obtain ⟨m, hm, -⟩ := h'.complete n h.first.le h.first.occurs
      cases hm
    | cons m others =>
      obtain rfl := h.first.unique h'.first
      rw [ih h.tail h'.tail]

end Leftmost

theorem findFrom_leftmost (hterm : term ≠ []) (text : List Char) (start : Nat) :
    Leftmost term text start (findFrom term text start) := by
  have hnil {start : Nat} (h : ∀ n, start ≤ n → ¬Occurs term text n) : Leftmost term text start [] :=
    ⟨fun _ hn => absurd hn not_mem_nil, .nil, fun n hn hoccurs => absurd hoccurs (h n hn)⟩
  fun_induction findFrom term text start with
  | case1 start hstop =>
    refine hnil fun n hn hoccurs => ?_
    have hle := hoccurs.le hterm
    have hpos := length_pos_iff.2 hterm
    have hend := hstop.resolve_left hterm
    omega
  | case2 start _ hnone => exact hnil fun n => not_occurs_of_searchFrom? hnone
  | case3 start _ n hsome ih => exact .cons (first_of_searchFrom? hsome) ih

/-! ## Indices -/

/-- A place in a widget: a line and a column, and a number of characters to go on from there. -/
structure Index where
  place : Nat × Nat
  ahead : Nat

namespace Index

def written (i : Index) : String :=
  placeText i.place ++ if i.ahead = 0 then "" else s!"+{i.ahead}c"

def ofPlace (text : List Char) (n : Nat) : Index := ⟨Buffer.placeAfter (text.take n), 0⟩

def plus (i : Index) (count : Nat) : Index := { i with ahead := i.ahead + count }

/-- The number of characters before a column of a line, or before the end of the line if that comes first. -/
def lineOffset : (text : List Char) → (line column : Nat) → Nat
  | [], _, _ => 0
  | c :: cs, line + 2, column => lineOffset cs (if c = '\n' then line + 1 else line + 2) column + 1
  | _ :: _, _, 0 => 0
  | c :: cs, line, column + 1 => if c = '\n' then 0 else lineOffset cs line column + 1

def offset (text : List Char) (i : Index) : Nat :=
  min (lineOffset text i.place.1 i.place.2 + i.ahead) text.length

theorem length_takeWhile_eq_iff (cs : List Char) :
    (cs.takeWhile (· != '\n')).length = cs.length ↔ cs.count '\n' = 0 := by
  induction cs with
  | nil => simp
  | cons c cs ih => by_cases hc : c = '\n' <;> simp [hc, ih]

theorem lineOffset_placeAfter (before rest : List Char) :
    lineOffset (before ++ rest) (Buffer.placeAfter before).1 (Buffer.placeAfter before).2 =
      before.length := by
  induction before with
  | nil => cases rest <;> rfl
  | cons c before ih =>
    have hall := length_takeWhile_eq_iff before.reverse
    rw [count_reverse, length_reverse] at hall
    simp only [Buffer.placeAfter, reverse_cons, takeWhile_append, cons_append, length_reverse] at ih ⊢
    by_cases hc : c = '\n'
    · grind [lineOffset, takeWhile_cons]
    · cases hcount : before.count '\n' with
      | zero =>
        have hfull := hall.2 hcount
        rw [hcount, hfull] at ih
        simp [hc, hcount, hfull, lineOffset, ih]
      | succ k =>
        have hpart : ¬_ := mt hall.1 (by omega)
        rw [hcount] at ih
        simp [hc, hcount, hpart, lineOffset, ih]

theorem offset_plus {k : Nat} (h : n + k ≤ text.length) : ((ofPlace text n).plus k).offset text = n + k := by
  have hplace := lineOffset_placeAfter (text.take n) (text.drop n)
  rw [take_append_drop, length_take, Nat.min_eq_left (by omega)] at hplace
  simp only [offset, plus, ofPlace, hplace, Nat.zero_add, Nat.min_eq_left h]

end Index

/-! ## Searching again and again -/

/-- **What a widget answers to a search:** the first occurrence at or behind an index, if there is one. -/
def Searches (term text : List Char) (search : Index → Option Index) : Prop :=
  ∀ i, (search i = none ∧ ∀ n, i.offset text ≤ n → ¬Occurs term text n) ∨
    ∃ n, search i = some (.ofPlace text n) ∧ First term text (i.offset text) n

theorem searches_searchFrom? (term text : List Char) :
    Searches term text fun i => (searchFrom? term text (i.offset text)).map (.ofPlace text) := by
  simp only [Searches]
  intro i
  cases h : searchFrom? term text (i.offset text) with
  | none => exact .inl ⟨rfl, fun n => not_occurs_of_searchFrom? h⟩
  | some n => exact .inr ⟨n, rfl, first_of_searchFrom? h⟩

/-- The rounds of a search that begins at an index and ends when nothing is found. Each round marks a range,
and the next one begins at the end of the range as it was written. -/
inductive Rounds (search : Index → Option Index) (length : Nat) : Index → List (Index × Index) → Prop where
  | ended {i : Index} : search i = none → Rounds search length i []
  | again {i j : Index} {ranges : List (Index × Index)} : search i = some j →
      Rounds search length (j.plus length) ranges → Rounds search length i ((j, j.plus length) :: ranges)

def rangeAt (term text : List Char) (n : Nat) : Index × Index :=
  (.ofPlace text n, (Index.ofPlace text n).plus term.length)

/-- **The rounds go through the leftmost occurrences,** and through nothing else. -/
theorem Leftmost.rounds_iff {search : Index → Option Index} (hsearch : Searches term text search)
    (hterm : term ≠ []) {i : Index} (h : Leftmost term text (i.offset text) places)
    (ranges : List (Index × Index)) :
    Rounds search term.length i ranges ↔ ranges = places.map (rangeAt term text) := by
  induction places generalizing i ranges with
  | nil =>
    obtain ⟨hnone, -⟩ | ⟨n, -, hfirst⟩ := hsearch i
    · refine ⟨fun hrounds => ?_, fun hranges => hranges ▸ .ended hnone⟩
      cases hrounds with
      | ended => rfl
      | again hsome => simp [hnone] at hsome
    · obtain ⟨m, hm, -⟩ := h.complete n hfirst.le hfirst.occurs
      cases hm
  | cons n places ih =>
    obtain ⟨-, hnot⟩ | ⟨m, hsome, hfirst⟩ := hsearch i
    · exact absurd h.first.occurs (hnot n h.first.le)
    · obtain rfl := hfirst.unique h.first
      -- the end of the range, as the widget works it out, is where the next round has to begin
      have hend := Index.offset_plus (hfirst.occurs.le hterm)
      have hrest := ih (hend ▸ h.tail)
      refine ⟨fun hrounds => ?_, fun hranges => hranges ▸ .again hsome ((hrest _).2 rfl)⟩
      cases hrounds with
      | ended hnone => simp [hnone] at hsome
      | again hsome' hrounds =>
        cases hsome.symm.trans hsome'
        rw [(hrest _).1 hrounds]
        rfl

theorem occurs_content (b : Buffer) (hline : '\n' ∉ term) (n : Nat) :
    Occurs term b.content.toList n ↔ Occurs term b.text.toList n := by
  have hcontent : b.content.toList = b.text.toList ++ ['\n'] := String.toList_append
  rw [Occurs, Occurs, hcontent]
  by_cases hn : n ≤ b.text.toList.length
  · rw [drop_append_of_le_length hn, prefix_concat_iff, or_iff_right]
    rintro rfl
    simp at hline
  · rw [drop_eq_nil_of_le (by simp; omega), drop_eq_nil_of_le (by omega)]

/-- **Finding ends, and it marks the leftmost occurrences that do not overlap, in order.** Whatever search a
widget has, its rounds come to an end, and only with the ranges that the editor marks. -/
theorem find_marks_leftmost {s : Session} {o : Outside} {term : String} (hask : o.term = some term)
    (hterm : term ≠ "") (hline : '\n' ∉ term.toList) :
    let content := s.desk.buffer.content.toList
    ∃ ranges places,
      (∀ search, Searches term.toList content search →
        ∀ others, Rounds search term.length ⟨(1, 0), 0⟩ others ↔ others = ranges) ∧
      (s.step o .find).marks = ranges.map (fun r => (r.1.written, r.2.written)) ∧
      ranges.map (fun r => (r.1.offset content, r.2.offset content)) =
        places.map (fun n => (n, n + term.length)) ∧
      ∀ others, Leftmost term.toList content 0 others ↔ others = places := by
  intro content
  have hchars : term.toList ≠ [] := by simpa using hterm
  have hoccurs := occurs_content s.desk.buffer hline
  obtain ⟨hplaces, hapart, hcomplete⟩ := findFrom_leftmost hchars s.desk.buffer.text.toList 0
  have hleft : Leftmost term.toList content 0 (s.desk.buffer.find term) :=
    ⟨fun n hn => (hplaces n hn).imp_right (hoccurs n).2, hapart,
      fun n hn ho => hcomplete n hn ((hoccurs n).1 ho)⟩
  have hstart : (Index.mk (1, 0) 0).offset content = 0 := by cases content <;> rfl
  refine ⟨(s.desk.buffer.find term).map (rangeAt term.toList content), s.desk.buffer.find term,
    fun search hsearch => (hstart ▸ hleft).rounds_iff hsearch hchars, ?_, ?_,
    fun others => ⟨fun h => h.unique hleft, fun h => h ▸ hleft⟩⟩
  · rw [Session.step, act, find, hask, map_map]
    refine map_congr_left fun n hn => ?_
    have hn := (hplaces n hn).2.le hchars
    have htake : content.take n = s.desk.buffer.text.toList.take n := by
      rw [show content = _ from String.toList_append, take_append_of_le_length (by omega)]
    have hlong : ¬term.toList.length = 0 := by simpa using hterm
    simp only [Function.comp_apply, rangeAt, Index.written, Index.ofPlace, Index.plus, htake, Buffer.placeAt,
      Nat.zero_add, if_true, if_neg hlong, String.append_empty, String.append_assoc]
    rfl
  · rw [map_map]
    refine map_congr_left fun n hn => ?_
    have hn := (hleft.occurs n hn).2.le hchars
    exact Prod.ext (Index.offset_plus (k := 0) (by omega)) (Index.offset_plus hn)

/-- A term that overlaps itself, on two lines. -/
theorem find_marks_doubled :
    let s : Session := { Session.ofFiles default with desk.buffer := ⟨"aaa\naa", 0⟩ }
    let o : Outside := ⟨"", .timedOut, ⟨none, none, none, none⟩, false, "", "", some "aa"⟩
    (s.step o .find).marks = [("1.0", "1.0+2c"), ("2.0", "2.0+2c")] ∧
      ∃ search ranges, Searches ['a', 'a'] "aaa\naa\n".toList search ∧ Rounds search 2 ⟨(1, 0), 0⟩ ranges ∧
        (s.step o .find).marks = ranges.map (fun r => (r.1.written, r.2.written)) := by
  intro s o
  obtain ⟨ranges, places, hrounds, hmarks, -⟩ := find_marks_leftmost (s := s) (o := o) rfl (by decide) (by decide)
  have hsearch := searches_searchFrom? ['a', 'a'] "aaa\naa\n".toList
  exact ⟨by decide +kernel, _, ranges, hsearch, (hrounds _ hsearch ranges).2 rfl, hmarks⟩

end ScriptWorkbench.Editor
