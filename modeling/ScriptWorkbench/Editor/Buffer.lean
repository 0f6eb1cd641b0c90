/-
A text with a place in it: a line, counted from one, and a column, counted from zero. The text that is read
from a buffer ends with one more line feed than the text that was put in.
-/
import ScriptWorkbench.Text.Search

namespace ScriptWorkbench.Editor

/-- The text of the editor, and where the cursor is. -/
structure Buffer where
  text : String
  cursor : Nat
deriving Repr, DecidableEq, Inhabited

namespace Buffer

def content (b : Buffer) : String :=
  b.text ++ "\n"

def empty : Buffer := ⟨"", 0⟩

def replace (_ : Buffer) (text : String) : Buffer :=
  ⟨text, text.length⟩

def placeAfter (before : List Char) : Nat × Nat :=
  (before.count '\n' + 1, (before.reverse.takeWhile (· != '\n')).length)

def placeAt (b : Buffer) (offset : Nat) : Nat × Nat :=
  placeAfter (b.text.toList.take offset)

def cursorPlace (b : Buffer) : Nat × Nat :=
  b.placeAt b.cursor

def beforeCursor (b : Buffer) : String :=
  String.ofList (b.text.toList.take b.cursor)

end Buffer

def placeText (p : Nat × Nat) : String :=
  s!"{p.1}.{p.2}"

/-! ## Searching -/

def searchFrom? (term text : List Char) (start : Nat) : Option Nat :=
  (Text.indexOf? term (text.drop start)).map (start + ·)

theorem searchFrom?_bounds {term text : List Char} {start n : Nat}
    (h : searchFrom? term text start = some n) : start ≤ n ∧ n + term.length ≤ text.length ∨
      text.length ≤ start := by
  simp only [searchFrom?, Option.map_eq_some_iff] at h
  obtain ⟨m, hm, rfl⟩ := h
  have := Text.indexOf?_le hm
  simp only [List.length_drop] at this
  omega

/-- The occurrences of a term that are found by searching again behind each one, starting at an
offset. An empty term is not searched for. -/
def findFrom (term text : List Char) (start : Nat) : List Nat :=
  if _hterm : term = [] ∨ text.length ≤ start then []
  else
    match _h : searchFrom? term text start with
    | none => []
    | some n => n :: findFrom term text (n + term.length)
termination_by text.length - start
decreasing_by
  have hbounds := searchFrom?_bounds _h
  have hlength : 0 < term.length := List.length_pos_iff.2 fun e => _hterm (.inl e)
  omega

def Buffer.find (b : Buffer) (term : String) : List Nat :=
  findFrom term.toList b.text.toList 0

end ScriptWorkbench.Editor
