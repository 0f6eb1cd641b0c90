/-
Marking what looks wrong in a script: statements without a semicolon, and, if the brackets do not add up,
brackets that are not closed.
-/
import ScriptWorkbench.Studio.Document
import ScriptWorkbench.Studio.Highlight

namespace ScriptWorkbench.Studio.Marks

/-! ## Lines -/

def surplus (opening closing : Char) (line : List Char) : Int :=
  (line.count opening : Int) - line.count closing

/-- How many brackets of each sort are open. -/
structure Balance where
  braces : Int
  squares : Int
  rounds : Int
deriving Repr, DecidableEq, Inhabited

namespace Balance

def even : Balance := ⟨0, 0, 0⟩

def add (b : Balance) (line : List Char) : Balance :=
  ⟨b.braces + surplus '\x7b' '\x7d' line, b.squares + surplus '[' ']' line,
    b.rounds + surplus '(' ')' line⟩

end Balance

def statementWords : List String := ["let", "set", "return"]

def trimmed (line : List Char) : List Char :=
  Text.dropAround Text.isBlank line

/-- A line that starts a statement and has no semicolon. -/
def lacksSemicolon (line : List Char) : Bool :=
  statementWords.any (fun w => w.toList.isPrefixOf (trimmed line)) &&
    !line.contains ';' && (trimmed line).getLast? != some '\x7b'

/-- Blank lines, comments, and lines at whose end a string is still open do not take part. -/
def isSilent (line : List Char) : Bool :=
  match trimmed line with
  | [] => true
  | c :: _ => c == '#'

def survey (quote : Option Char) (b : Balance) (n : Nat) : List (List Char) → List Nat × Balance
  | [] => ([], b)
  | line :: rest =>
    if isSilent line then survey quote b (n + 1) rest
    else
      let quote := openQuoteFrom none quote line
      if quote.isSome then survey quote b (n + 1) rest
      else
        let (found, total) := survey quote (b.add line) (n + 1) rest
        (if lacksSemicolon line then n :: found else found, total)

/-! ## Places -/

def closingOf : Char → Option Char
  | '\x7b' => some '\x7d'
  | '(' => some ')'
  | '[' => some ']'
  | _ => none

def unclosedIn (rest : List Char) (column : Nat) : List Char → Option Nat
  | [] => none
  | c :: more =>
    match closingOf c with
    | some closing => if rest.contains closing then unclosedIn rest (column + 1) more else some column
    | none => unclosedIn rest (column + 1) more

/-- Opening brackets whose closing counterpart occurs nowhere from their line on. -/
def unclosed (start : Nat) : List (List Char) → List Cursor
  | [] => []
  | line :: rest =>
    let found := match unclosedIn (line :: rest).flatten 0 line with
      | some column => [⟨start + column + 1, start + column⟩]
      | none => []
    found ++ unclosed (start + line.length + 1) rest

def wholeLines (numbers : List Nat) (start n : Nat) : List (List Char) → List Cursor
  | [] => []
  | line :: rest =>
    let found := if numbers.contains n then [⟨start + line.length, start⟩] else []
    found ++ wholeLines numbers (start + line.length + 1) (n + 1) rest

def ofScript (text : List Char) : List Cursor :=
  let lines := Text.splitOnChar '\n' text
  let (numbers, balance) := survey none .even 0 lines
  wholeLines numbers 0 0 lines ++ (if balance = .even then [] else unclosed 0 lines)

end ScriptWorkbench.Studio.Marks
