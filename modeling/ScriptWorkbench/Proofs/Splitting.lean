/-
The pieces of a text between its separators: joined by the separator they give the text again, each of them is
a part of it without separators, and a text that goes on where another ends goes on in its last piece.
-/
import ScriptWorkbench.Text.Search

namespace ScriptWorkbench.Text

open List

variable {sep c : Char} {cs piece : List Char}

theorem splitOnChar_of_not_mem (h : sep ∉ cs) : splitOnChar sep cs = [cs] := by
  induction cs with
  | nil => rfl
  | cons c cs ih =>
    rw [mem_cons, not_or] at h
    rw [splitOnChar, if_neg (Ne.symm h.1), ih h.2]

theorem splitOnChar_parts (sep : Char) (cs : List Char) :
    ∃ first more, splitOnChar sep cs = first :: more ∧ first <+: cs ∧
      ∀ piece ∈ splitOnChar sep cs, sep ∉ piece ∧ piece <:+: cs := by
  induction cs with
  | nil => exact ⟨[], [], rfl, prefix_rfl, by simp [splitOnChar]⟩
  | cons c cs ih =>
    obtain ⟨first, more, hsplit, hfirst, hparts⟩ := ih
    have hparts (piece) (h : piece ∈ first :: more) : sep ∉ piece ∧ piece <:+: c :: cs :=
      (hparts piece (hsplit ▸ h)).imp_right (·.trans (suffix_cons c cs).isInfix)
    rw [splitOnChar, hsplit]
    split
    next =>
      refine ⟨[], first :: more, rfl, nil_prefix, forall_mem_cons.2 ⟨?_, hparts⟩⟩
      exact ⟨not_mem_nil, nil_infix⟩
    next hc =>
      have hfirst : c :: first <+: c :: cs := cons_prefix_cons.2 ⟨rfl, hfirst⟩
      refine ⟨c :: first, more, rfl, hfirst, forall_mem_cons.2 ⟨⟨?_, hfirst.isInfix⟩, fun piece h =>
        hparts piece (mem_cons_of_mem _ h)⟩⟩
      rw [mem_cons, not_or]
      exact ⟨Ne.symm hc, (hparts first mem_cons_self).1⟩

theorem splitOnChar_piece (h : piece ∈ splitOnChar sep cs) : sep ∉ piece ∧ piece <:+: cs :=
  (splitOnChar_parts sep cs).elim fun _ h' => h'.elim fun _ h' => h'.2.2 piece h

theorem splitOnChar_append (sep : Char) (cs : List Char) :
    ∃ front last, splitOnChar sep cs = front ++ [last] ∧
      ∀ {ds first more}, splitOnChar sep ds = first :: more →
        splitOnChar sep (cs ++ ds) = front ++ (last ++ first) :: more := by
  induction cs with
  | nil => exact ⟨[], [], rfl, id⟩
  | cons c cs ih =>
    obtain ⟨front, last, hsplit, happend⟩ := ih
    by_cases hc : c = sep
    · refine ⟨[] :: front, last, by simp [splitOnChar, hc, hsplit], fun h => ?_⟩
      simp [splitOnChar, hc, happend h]
    · cases front with
      | nil =>
        refine ⟨[], c :: last, by simp [splitOnChar, hc, hsplit], fun h => ?_⟩
        simp [splitOnChar, hc, happend h]
      | cons piece front =>
        refine ⟨(c :: piece) :: front, last, by simp [splitOnChar, hc, hsplit], fun h => ?_⟩
        simp [splitOnChar, hc, happend h]

theorem splitOnChar_append_cons (h : sep ∉ cs) (ds : List Char) :
    splitOnChar sep (cs ++ sep :: ds) = cs :: splitOnChar sep ds := by
  induction cs with
  | nil => rw [nil_append, splitOnChar, if_pos rfl]
  | cons c cs ih =>
    rw [mem_cons, not_or] at h
    rw [cons_append, splitOnChar, if_neg (Ne.symm h.1), ih h.2]

theorem intercalate_splitOnChar (sep : Char) (cs : List Char) :
    [sep].intercalate (splitOnChar sep cs) = cs := by
  induction cs with
  | nil => rfl
  | cons c cs ih =>
    obtain ⟨piece, rest, hsplit, -⟩ := splitOnChar_parts sep cs
    rw [hsplit] at ih
    rw [splitOnChar, hsplit]
    -- a separator opens a new piece, any other character joins the first one
    split
    next hc => rw [intercalate_cons_cons, ih, hc]; rfl
    next =>
      rw [← ih]
      cases rest with
      | nil => simp
      | cons => simp

end ScriptWorkbench.Text
