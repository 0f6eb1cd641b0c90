/-
Line-by-line checks of a source text, which know nothing of strings or comments: a line that starts like a
header should end with a colon, and brackets of one sort should be as often opened as closed on the line.
-/
import ScriptWorkbench.Text.Blank
import ScriptWorkbench.Text.Search

namespace ScriptWorkbench.Lint

/-- How bad an issue is. -/
inductive Gravity where
  | error
  | warning
deriving Repr, DecidableEq

def Gravity.name : Gravity → String
  | .error => "error"
  | .warning => "warning"

/-- Something that was found wrong with a line. -/
structure Issue where
  line : Nat
  gravity : Gravity
  message : String
deriving Repr, DecidableEq

def headers : List (String × String) :=
  [("if ", "Falta \":\" al final de la declaración if"),
   ("def ", "Falta \":\" al final de la declaración de función"),
   ("for ", "Falta \":\" al final del bucle for"),
   ("while ", "Falta \":\" al final del bucle while")]

/-- A pair of brackets, with the words for what is wrong with it. -/
structure Brackets where
  opening : Char
  closing : Char
  name : String
  openedWord : String
  closedWord : String
deriving Repr, DecidableEq

def bracketSorts : List Brackets :=
  [⟨'(', ')', "Paréntesis desbalanceados", "abiertos", "cerrados"⟩,
   ⟨'[', ']', "Corchetes desbalanceados", "abiertos", "cerrados"⟩,
   ⟨'{', '}', "Llaves desbalanceadas", "abiertas", "cerradas"⟩]

def headerMessage? (line : String) (h : String × String) : Option String :=
  let bare := Text.trim line
  if Text.startsWith bare h.1 && !Text.endsWith bare ":" then some h.2 else none

def bracketMessage? (line : String) (b : Brackets) : Option String :=
  let opened := Text.countChar b.opening line
  let closed := Text.countChar b.closing line
  if opened = closed then none
  else some s!"{b.name}: {opened} {b.openedWord}, {closed} {b.closedWord}"

def checkLine (number : Nat) (line : String) : List Issue :=
  ((headers.filterMap (headerMessage? line)).map fun m => ⟨number, .error, m⟩) ++
    (bracketSorts.filterMap (bracketMessage? line)).map fun m => ⟨number, .warning, m⟩

def checkLines (number : Nat) : List String → List Issue
  | [] => []
  | line :: rest => checkLine number line ++ checkLines (number + 1) rest

def check (source : String) : List Issue :=
  checkLines 1 (Text.lines source)

end ScriptWorkbench.Lint
