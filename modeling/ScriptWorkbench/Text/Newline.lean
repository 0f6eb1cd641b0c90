/-
Line ends of text files. Reading turns a carriage return, a line feed or both in this order into a single line
feed.
-/

set_option autoImplicit false

namespace ScriptWorkbench.Text

def normalizeLineEnds : List Char → List Char
  | [] => []
  | '\r' :: '\n' :: cs => '\n' :: normalizeLineEnds cs
  | c :: cs => (if c = '\r' then '\n' else c) :: normalizeLineEnds cs

theorem normalizeLineEnds_of_not_mem {cs : List Char} (h : '\r' ∉ cs) :
    normalizeLineEnds cs = cs := by
  fun_induction normalizeLineEnds cs <;> simp_all
  rintro rfl
  simp_all

end ScriptWorkbench.Text
