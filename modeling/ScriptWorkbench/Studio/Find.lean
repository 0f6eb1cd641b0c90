/-
Finding and replacing. A search starts at the end of the selection and begins again at the start of the text
when it finds nothing. Replacing puts the new text in the place of whatever is selected, and searches on.
-/
import ScriptWorkbench.Studio.CodeView

namespace ScriptWorkbench.Studio.Document

variable [Toolkit]

def find? (d : Document) (term : List Char) : Option Document :=
  if term.isEmpty then none
  else (Text.indexOf? term (d.text.drop d.cursor.last)).map fun n =>
    { d with cursor := ⟨d.cursor.last + n + term.length, d.cursor.last + n⟩ }

/-- Select the next occurrence of a term, from the start of the text when none follows. The cursor
stays at the start when there is none at all. -/
def findNext (d : Document) (term : List Char) : Document :=
  match d.find? term with
  | some d => d
  | none => ((d.moveTo 0).find? term).getD (d.moveTo 0)

def replaceNext (d : Document) (term new : List Char) : Document :=
  (if d.cursor.selects then d.type new else d).findNext term

def replaceAll (d : Document) (term new : String) : Document :=
  if term = new ∨ term = "" then d
  else .ofText (Text.replaceAll (String.ofList (Toolkit.given d.text)) term new).toList

end ScriptWorkbench.Studio.Document
