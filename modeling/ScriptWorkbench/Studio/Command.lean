/-
The command that runs a file. Its two places are filled before it is cut at blanks, so a file whose name has a
blank becomes two words.
-/
import ScriptWorkbench.Text.Blank
import ScriptWorkbench.Text.Search

namespace ScriptWorkbench.Studio

/-- A command to start a program. -/
structure Command where
  program : String
  arguments : List String
deriving Repr, DecidableEq, Inhabited

namespace Command

def interpreterPlace : String := "\x7bpython_executable\x7d"

def filePlace : String := "\x7bfile\x7d"

def fill (interpreter file template : String) : String :=
  Text.replaceAll (Text.replaceAll template interpreterPlace interpreter) filePlace file

def ofTemplate (interpreter file template : String) : Option Command :=
  match Text.words (fill interpreter file template) with
  | [] => none
  | program :: arguments => some ⟨program, arguments⟩

def noWordMessage : String := "list index out of range"

end Command

end ScriptWorkbench.Studio
