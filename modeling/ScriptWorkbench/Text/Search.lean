/-
Finding a text inside another. Occurrences are counted from the left and do not overlap.
-/

set_option autoImplicit false

namespace ScriptWorkbench.Text

def dropPrefix? : (p cs : List Char) → Option (List Char)
  | [], cs => some cs
  | _ :: _, [] => none
  | x :: p, c :: cs => if x = c then dropPrefix? p cs else none

def indexOf? (p : List Char) : List Char → Option Nat
  | [] => if p.isEmpty then some 0 else none
  | c :: cs => if (dropPrefix? p (c :: cs)).isSome then some 0 else (indexOf? p cs).map (· + 1)

theorem length_of_dropPrefix? {p cs rest : List Char} (h : dropPrefix? p cs = some rest) :
    p.length + rest.length = cs.length := by
  induction p generalizing cs with
  | nil =>
    simp only [dropPrefix?, Option.some.injEq] at h
    simp [h]
  | cons a p ih =>
    cases cs with
    | nil => simp [dropPrefix?] at h
    | cons c cs =>
      simp only [dropPrefix?] at h
      split at h
      · have := ih h
        simp only [List.length_cons]
        omega
      · simp at h

theorem indexOf?_le {p cs : List Char} {n : Nat} (h : indexOf? p cs = some n) :
    n + p.length ≤ cs.length := by
  induction cs generalizing n with
  | nil =>
    simp only [indexOf?] at h
    split at h
    · rename_i hp
      simp only [Option.some.injEq] at h
      simp [← h, List.isEmpty_iff.1 hp]
    · simp at h
  | cons c cs ih =>
    simp only [indexOf?] at h
    split at h
    · rename_i hp
      obtain ⟨rest, hrest⟩ := Option.isSome_iff_exists.1 hp
      have := length_of_dropPrefix? hrest
      simp only [Option.some.injEq] at h
      omega
    · simp only [Option.map_eq_some_iff] at h
      obtain ⟨m, hm, rfl⟩ := h
      have := ih hm
      simp only [List.length_cons]
      omega

theorem isSome_dropPrefix?_iff (p cs : List Char) : (dropPrefix? p cs).isSome = true ↔ p <+: cs := by
  induction p generalizing cs with
  | nil => simp [dropPrefix?]
  | cons x p ih =>
    cases cs with
    | nil => simp [dropPrefix?]
    | cons c cs =>
      rw [dropPrefix?, List.cons_prefix_cons, ← ih]
      split <;> simp_all

theorem isSome_indexOf?_iff (p cs : List Char) : (indexOf? p cs).isSome = true ↔ p <:+: cs := by
  induction cs with
  | nil =>
    rw [indexOf?, List.infix_nil, ← List.isEmpty_iff]
    split <;> simp_all
  | cons c cs ih =>
    rw [indexOf?, List.infix_cons_iff, ← isSome_dropPrefix?_iff, ← ih]
    split <;> simp_all

def occursIn (p s : String) : Bool :=
  (indexOf? p.toList s.toList).isSome

def startsWith (s p : String) : Bool :=
  (dropPrefix? p.toList s.toList).isSome

def endsWith (s p : String) : Bool :=
  (dropPrefix? p.toList.reverse s.toList.reverse).isSome

/-! ## Splitting -/

def splitOnChar (sep : Char) : List Char → List (List Char)
  | [] => [[]]
  | c :: cs =>
    if c = sep then [] :: splitOnChar sep cs
    else
      match splitOnChar sep cs with
      | [] => [[c]]
      | piece :: rest => (c :: piece) :: rest

def splitChar (sep : Char) (s : String) : List String :=
  (splitOnChar sep s.toList).map String.ofList

def lines (s : String) : List String :=
  splitChar '\n' s

/-! ## Replacing -/

def replaceFrom (p new : List Char) (skip : Nat) : List Char → List Char
  | [] => []
  | c :: cs =>
    match skip with
    | k + 1 => replaceFrom p new k cs
    | 0 =>
      if (dropPrefix? p (c :: cs)).isSome then new ++ replaceFrom p new (p.length - 1) cs
      else c :: replaceFrom p new 0 cs

def interleave (new : List Char) : List Char → List Char
  | [] => new
  | c :: cs => new ++ c :: interleave new cs

def replaceAll (s old new : String) : String :=
  String.ofList <|
    if old.toList.isEmpty then interleave new.toList s.toList
    else replaceFrom old.toList new.toList 0 s.toList

def countChar (c : Char) (s : String) : Nat :=
  s.toList.count c

end ScriptWorkbench.Text
