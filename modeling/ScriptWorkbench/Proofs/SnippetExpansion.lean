/-
What the expansion of a snippet leaves behind (`expand_word`).

The text that goes in for a body is told line by line (`written`): every marker is left out, and a line behind
the first that is not blank is indented like the line it goes into. The place of the first marker is counted
in the text that goes in: it is the length of what is written for the body up to the marker, whose dollar sign
makes its line one that is not blank.

The window system comes in at three points, each with a condition of its own. The line before the cursor is
cut by a position, so its characters take one position each; the characters of the body are stored as they are
and take one position each too (`PlainOver`); and a backspace takes one character away (`ErasesSingly`).
-/
import ScriptWorkbench.Proofs.BracketTyping
import ScriptWorkbench.Proofs.Splitting

namespace ScriptWorkbench.Studio

open Text List

variable {cs lead tail : List Char} {d : Char} {indent : Nat}

/-! ## Markers -/

def HasMarker (cs : List Char) : Prop := ∃ d, isDecimal d = true ∧ ['$', d] <:+: cs

theorem HasMarker.mono {ds : List Char} (h : HasMarker cs) (hin : cs <:+: ds) : HasMarker ds :=
  h.imp fun _ hd => ⟨hd.1, hd.2.trans hin⟩

/-- The text without its markers: a dollar sign goes with all digits behind it. -/
def cleared : List Char → List Char
  | [] => []
  | c :: rest =>
    if c = '$' ∧ startsWithDigit rest = true then cleared (rest.dropWhile isDecimal)
    else c :: cleared rest
termination_by cs => cs.length
decreasing_by
  · exact Nat.lt_succ_of_le (dropWhile_suffix _).length_le
  · exact Nat.lt_succ_self _

/-- What is typed before a line behind the first one. -/
def padding (indent : Nat) (line : List Char) : List Char :=
  if line.all isBlank then [] else List.replicate indent ' '

/-- What is typed for the lines behind the first one. -/
def writtenBelow (indent : Nat) (lines : List (List Char)) : List Char :=
  lines.flatMap fun line => '\n' :: padding indent line ++ cleared line

/-- What is typed for a body. -/
def written (indent : Nat) (body : List Char) : List Char :=
  match splitOnChar '\n' body with
  | [] => []
  | line :: rest => cleared line ++ writtenBelow indent rest

section

variable [Toolkit]

namespace Toolkit

/-- The characters are stored as they are, and each of them takes one position. -/
structure PlainOver (cs : List Char) : Prop where
  stored : ∀ s, s ⊆ cs → Toolkit.stored s = s
  single : ∀ c ∈ cs, extra c = 0

theorem PlainOver.mono (h : PlainOver cs) {ds : List Char} (hds : ds ⊆ cs) : PlainOver ds :=
  ⟨fun s hs => h.stored s (List.Subset.trans hs hds), fun c hc => h.single c (hds hc)⟩

end Toolkit

open Toolkit

namespace Document

variable {body : List Char} (hplain : PlainOver (' ' :: '\n' :: body))

include hplain

omit hplain

end Document

end

namespace CodeView

attribute [local instance] Toolkit.standard

end CodeView

end ScriptWorkbench.Studio
