/-
The words of the command that runs a file.

A place to fill has no blanks in it, so filling a template word by word and cutting every filled word at its
blanks gives the words of the filled template (`words_fill`). Main statement: `ofTemplate_eq_wordwise_iff`.
-/
import ScriptWorkbench.Studio.Command

namespace ScriptWorkbench

open List

namespace Text

variable {p new cs : List Char} {b : Char}

def Unbroken (cs : List Char) : Prop := ∀ c ∈ cs, isBlank c = false

theorem unbroken_of_all (h : cs.all (!isBlank ·) = true) : Unbroken cs := by simpa [Unbroken] using h

/-! ## Words -/

theorem wordsFrom_append_blank (hb : isBlank b = true) (w cs ds : List Char) :
    wordsFrom w (cs ++ b :: ds) = wordsFrom w cs ++ wordsFrom [] ds := by
  induction cs generalizing w with
  | nil =>
    rw [nil_append, wordsFrom, wordsFrom, if_pos hb]
    split <;> rfl
  | cons c cs ih =>
    rw [cons_append, wordsFrom, wordsFrom, ih, ih]
    repeat' split
    all_goals rfl

theorem wordsFrom_of_unbroken (h : Unbroken cs) (w : List Char) :
    wordsFrom w cs = if w.reverse ++ cs = [] then [] else [w.reverse ++ cs] := by
  induction cs generalizing w with
  | nil => simp [wordsFrom]
  | cons c cs ih =>
    rw [Unbroken, forall_mem_cons] at h
    rw [wordsFrom, if_neg (by simp [h.1]), ih h.2]
    simp

theorem wordsFrom_sound {w u : List Char} (hw : Unbroken w) (hu : u ∈ wordsFrom w cs) :
    u ≠ [] ∧ Unbroken u := by
  have hclosed (hne : ¬w.isEmpty = true) : w.reverse ≠ [] ∧ Unbroken w.reverse :=
    ⟨by simpa using hne, fun c hc => hw c (mem_reverse.1 hc)⟩
  fun_induction wordsFrom w cs with
  | case1 => cases hu
  | case2 w hne => exact mem_singleton.1 hu ▸ hclosed hne
  | case3 w c cs hc hnil ih => exact ih (by simp [Unbroken]) hu (by simp)
  | case4 w c cs hc hne ih =>
    rcases mem_cons.1 hu with rfl | hu
    · exact hclosed hne
    · exact ih (by simp [Unbroken]) hu (by simp)
  | case5 w c cs hc ih =>
    have hw' : Unbroken (c :: w) := forall_mem_cons.2 ⟨by simpa using hc, hw⟩
    exact ih hw' hu fun _ => ⟨by simp, fun d hd => hw' d (mem_reverse.1 hd)⟩

/-! ## Replacing -/

theorem isSome_dropPrefix?_append_blank (hp : Unbroken p) (hb : isBlank b = true)
    (cs ds : List Char) : (dropPrefix? p (cs ++ b :: ds)).isSome = (dropPrefix? p cs).isSome := by
  induction p generalizing cs with
  | nil => rfl
  | cons x p ih =>
    rw [Unbroken, forall_mem_cons] at hp
    cases cs with
    | nil =>
      have hne : x ≠ b := by
        rintro rfl
        simp [hb] at hp
      simp [dropPrefix?, hne]
    | cons c cs =>
      rw [cons_append, dropPrefix?, dropPrefix?]
      split
      · exact ih hp.2 cs
      · rfl

theorem replaceFrom_append_blank (hne : p ≠ []) (hp : Unbroken p) (hb : isBlank b = true)
    (cs ds : List Char) {skip : Nat} (hskip : skip ≤ cs.length) :
    replaceFrom p new skip (cs ++ b :: ds) = replaceFrom p new skip cs ++ b :: replaceFrom p new 0 ds := by
  induction cs generalizing skip with
  | nil =>
    obtain rfl : skip = 0 := by simpa using hskip
    have hnone : (dropPrefix? p (b :: ds)).isSome = false := by
      rw [← nil_append (b :: ds), isSome_dropPrefix?_append_blank hp hb]
      cases p with
      | nil => exact absurd rfl hne
      | cons => rfl
    simp [replaceFrom, hnone]
  | cons c cs ih =>
    cases skip with
    | succ k => exact ih (by simpa using hskip)
    | zero =>
      have hsame := isSome_dropPrefix?_append_blank hp hb (c :: cs) ds
      rw [cons_append] at hsame ⊢
      rw [replaceFrom, replaceFrom, hsame]
      split
      next hpre =>
        have hlen := ((isSome_dropPrefix?_iff _ _).1 hpre).length_le
        rw [length_cons] at hlen
        rw [ih (by omega), append_assoc]
      next => rw [ih (by omega), cons_append]

theorem wordsFrom_replaceFrom (hne : p ≠ []) (hp : Unbroken p) (cs : List Char) :
    wordsFrom [] (replaceFrom p new 0 cs) =
      (wordsFrom [] cs).flatMap fun w => wordsFrom [] (replaceFrom p new 0 w) := by
  -- what has been seen since the last blank goes along, until the next blank ends it
  suffices h : ∀ us, Unbroken us → wordsFrom [] (replaceFrom p new 0 (us ++ cs)) =
      (wordsFrom [] (us ++ cs)).flatMap fun w => wordsFrom [] (replaceFrom p new 0 w) from
    h [] (by simp [Unbroken])
  have hword {us : List Char} (hus : Unbroken us) :
      (wordsFrom [] us).flatMap (fun w => wordsFrom [] (replaceFrom p new 0 w)) =
        wordsFrom [] (replaceFrom p new 0 us) := by
    rw [wordsFrom_of_unbroken hus]
    cases us with
    | nil => rfl
    | cons => simp
  induction cs with
  | nil =>
    intro us hus
    rw [append_nil, hword hus]
  | cons c cs ih =>
    intro us hus
    cases hc : isBlank c with
    | true =>
      rw [replaceFrom_append_blank hne hp hc us cs (Nat.zero_le _), wordsFrom_append_blank hc,
        wordsFrom_append_blank hc, flatMap_append, hword hus]
      exact congrArg _ (ih [] (by simp [Unbroken]))
    | false =>
      rw [append_cons]
      refine ih (us ++ [c]) fun d hd => ?_
      rcases mem_append.1 hd with hd | hd
      · exact hus d hd
      · exact mem_singleton.1 hd ▸ hc

theorem mem_of_mem_replaceFrom {c : Char} {skip : Nat} (h : c ∈ replaceFrom p new skip cs) :
    c ∈ new ∨ c ∈ cs := by
  fun_induction replaceFrom p new skip cs with
  | case1 => exact .inr h
  | case2 d cs k ih => exact (ih h).imp_right (mem_cons_of_mem d)
  | case3 d cs _ ih =>
    rcases mem_append.1 h with h | h
    · exact .inl h
    · exact (ih h).imp_right (mem_cons_of_mem d)
  | case4 d cs _ ih =>
    rcases mem_cons.1 h with rfl | h
    · exact .inr mem_cons_self
    · exact (ih h).imp_right (mem_cons_of_mem d)

theorem replaceFrom_of_absent (h : ¬p <:+: cs) : replaceFrom p new 0 cs = cs := by
  induction cs with
  | nil => rfl
  | cons c cs ih =>
    rw [infix_cons_iff, not_or, ← isSome_dropPrefix?_iff] at h
    rw [replaceFrom, if_neg h.1, ih h.2]

theorem infix_replaceFrom (hne : p ≠ []) (h : p <:+: cs) : new <:+: replaceFrom p new 0 cs := by
  induction cs with
  | nil => exact absurd (infix_nil.1 h) hne
  | cons c cs ih =>
    rw [replaceFrom]
    split
    next => exact (prefix_append _ _).isInfix
    next hpre =>
      rw [isSome_dropPrefix?_iff] at hpre
      exact (ih ((infix_cons_iff.1 h).resolve_left hpre)).trans (suffix_cons c _).isInfix

theorem unbroken_replaceFrom_iff (hne : p ≠ []) (hcs : Unbroken cs) :
    Unbroken (replaceFrom p new 0 cs) ↔ (p <:+: cs → Unbroken new) := by
  constructor
  · exact fun h hin c hc => h c ((infix_replaceFrom hne hin).subset hc)
  · intro h c hc
    by_cases hin : p <:+: cs
    · exact (mem_of_mem_replaceFrom hc).elim (h hin c) (hcs c)
    · exact hcs c (replaceFrom_of_absent hin ▸ hc)

/-! ## Texts -/

/-- A text that is one word: it is not empty, and there is no blank in it. -/
def IsWord (s : String) : Prop := s ≠ "" ∧ Unbroken s.toList

theorem isWord_of_mem_words {s w : String} (h : w ∈ words s) : IsWord w := by
  obtain ⟨u, hu, rfl⟩ := mem_map.1 h
  have hsound := wordsFrom_sound (by simp [Unbroken]) hu
  refine ⟨fun heq => hsound.1 ?_, by simpa using hsound.2⟩
  simpa using congrArg String.toList heq

theorem words_of_isWord {s : String} (h : IsWord s) : words s = [s] := by
  have hne : ¬s.toList = [] := fun heq => h.1 (String.toList_inj.1 heq)
  rw [words, wordsFrom_of_unbroken h.2, reverse_nil, nil_append, if_neg hne]
  simp

theorem flatMap_words_eq_self_iff {l : List String} :
    l.flatMap words = l ↔ ∀ w ∈ l, IsWord w := by
  constructor
  · intro h w hw
    rw [← h] at hw
    obtain ⟨s, -, hs⟩ := mem_flatMap.1 hw
    exact isWord_of_mem_words hs
  · intro h
    induction l with
    | nil => rfl
    | cons w l ih =>
      rw [forall_mem_cons] at h
      rw [flatMap_cons, words_of_isWord h.1, ih h.2]
      rfl

theorem toList_replaceAll {old : String} (hne : old.toList ≠ []) (s new : String) :
    (replaceAll s old new).toList = replaceFrom old.toList new.toList 0 s.toList := by
  rw [replaceAll, if_neg (by simpa using hne), String.toList_ofList]

theorem words_replaceAll {old : String} (hne : old.toList ≠ []) (hold : Unbroken old.toList)
    (s new : String) :
    words (replaceAll s old new) = (words s).flatMap fun w => words (replaceAll w old new) := by
  rw [words, toList_replaceAll hne, wordsFrom_replaceFrom hne hold, map_flatMap, words, flatMap_map]
  simp only [words, toList_replaceAll hne, String.toList_ofList]

end Text

namespace Studio.Command

open Text

def ofWords : List String → Option Command
  | [] => none
  | program :: arguments => some ⟨program, arguments⟩

theorem ofWords_inj {l l' : List String} : ofWords l = ofWords l' ↔ l = l' := by
  cases l <;> cases l' <;> simp [ofWords]

theorem ofTemplate_eq (interpreter file template : String) :
    ofTemplate interpreter file template = ofWords (words (fill interpreter file template)) := by
  rw [ofTemplate]
  split <;> simp_all [ofWords]

theorem words_fill (interpreter file template : String) :
    words (fill interpreter file template) =
      (words template).flatMap fun w => words (fill interpreter file w) := by
  have hinterpreter : Unbroken interpreterPlace.toList := unbroken_of_all (by decide +kernel)
  have hfile : Unbroken filePlace.toList := unbroken_of_all (by decide +kernel)
  have hfill (s : String) : words (fill interpreter file s) =
      (words (replaceAll s interpreterPlace interpreter)).flatMap fun w =>
        words (replaceAll w filePlace file) := words_replaceAll (by decide) hfile _ _
  simp only [hfill, words_replaceAll (by decide) hinterpreter template, flatMap_assoc]

/-- The words of the command are those of the template's filled words. Where the interpreter's name has
no blank, every filled word is one word of the command exactly if none of them is emptied and the file's
name has no blank, unless no word asks for it. -/
theorem ofTemplate_eq_wordwise_iff (interpreter file template : String)
    (hinterpreter : Unbroken interpreter.toList) :
    ofTemplate interpreter file template =
        ofWords ((words template).flatMap fun w => words (fill interpreter file w)) ∧
      (ofTemplate interpreter file template =
          ofWords ((words template).map (fill interpreter file)) ↔
        ∀ w ∈ words template, fill interpreter file w ≠ "" ∧
          (occursIn filePlace (replaceAll w interpreterPlace interpreter) = true →
            Unbroken file.toList)) := by
  have hwords := words_fill interpreter file template
  refine ⟨by rw [ofTemplate_eq, hwords], ?_⟩
  rw [ofTemplate_eq, ofWords_inj, hwords, ← List.flatMap_map, flatMap_words_eq_self_iff, List.forall_mem_map]
  refine forall₂_congr fun w hw => and_congr_right fun _ => ?_
  have hplaced : Unbroken (replaceAll w interpreterPlace interpreter).toList := by
    rw [toList_replaceAll (by decide), unbroken_replaceFrom_iff (by decide) (isWord_of_mem_words hw).2]
    exact fun _ => hinterpreter
  rw [fill, toList_replaceAll (by decide), unbroken_replaceFrom_iff (by decide) hplaced, occursIn,
    isSome_indexOf?_iff]

def runFile : String := interpreterPlace ++ " -u " ++ filePlace

theorem ofTemplate_wordwise_plain :
    Unbroken "python3".toList ∧ ofTemplate "python3" "a.py" runFile =
      ofWords ((words runFile).map (fill "python3" "a.py")) := by
  have hplain : Unbroken "python3".toList := unbroken_of_all (by decide +kernel)
  refine ⟨hplain, (ofTemplate_eq_wordwise_iff "python3" "a.py" runFile hplain).2.2 fun w hw => ?_⟩
  have hfilled : (words runFile).all (fill "python3" "a.py" · != "") = true := by decide +kernel
  exact ⟨by simpa using List.all_eq_true.1 hfilled w hw, fun _ => unbroken_of_all (by decide +kernel)⟩

/-- A file whose name has a blank reaches the program as two arguments. -/
theorem file_name_with_blank_broken :
    ofTemplate "python3" "a b.py" runFile = some ⟨"python3", ["-u", "a", "b.py"]⟩ ∧
      (words runFile).map (fill "python3" "a b.py") = ["python3", "-u", "a b.py"] := by
  decide +kernel

end Studio.Command

end ScriptWorkbench
