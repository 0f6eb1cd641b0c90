/-
Reports of problems in a script, coloured for a terminal.

A problem with a line and a column is shown with the source line and a caret below it. A report that breaks
off has shown what came before.
-/
import ScriptWorkbench.Json.Call

namespace ScriptWorkbench.Report

/-- A problem. Its parts are values of any sort; a line and a column are meant to be whole numbers, and
those that are not given are null. -/
structure Problem where
  message : Json
  line : Json
  column : Json
  hint : Json
deriving Repr

/-- Why a report cannot be written. -/
inductive Failure where
  | noLine
  | lineTooFar
  | brokenLine
  | columnTooFar
  | brokenColumn
  | noNumber (sort : String)
  | shape (error : Json.AccessError)
deriving Repr, DecidableEq

def Failure.message : Failure → String
  | .noLine => "list index out of range"
  | .lineTooFar | .columnTooFar => "cannot fit 'int' into an index-sized integer"
  | .brokenLine => "list indices must be integers or slices, not float"
  | .brokenColumn => "can't multiply sequence by non-int of type 'float'"
  | .noNumber sort => s!"'<=' not supported between instances of '{sort}' and 'int'"
  | .shape e => e.message

/-! ## Colours -/

def code (number : Nat) : String :=
  s!"\x1b[{number}m"

def colored (number : Nat) (text : String) : String :=
  code number ++ text ++ code 0

def red : Nat := 91

def purple : Nat := 95

def cyan : Nat := 96

def yellow : Nat := 93

def white : Nat := 97

/-! ## Parts of a report -/

def isGiven : Json → Bool
  | .null => false
  | _ => true

def title (p : Problem) : String :=
  let sort := if isGiven p.line then "Error de Sintaxis" else "Error de Ejecución"
  s!"--- {sort} en OPN ---"

def ending (p : Problem) : String :=
  "\n" ++ String.ofList (List.replicate (title p).length '-') ++ "\n\n"

def countLimit : Nat := Nat.pow 2 63

/-- The line of a number among lines. A number past the last line gives an empty line; zero and
negative numbers count from the end. -/
def lineAt (lines : List String) (number : Int) : Except Failure String :=
  if lines.length < number then .ok ""
  else
    let index := if 0 < number then number - 1 else lines.length + number - 1
    match index with
    | .ofNat i => .ok (lines.getD i "")
    | .negSucc _ => .error (if number ≤ -(countLimit : Int) then .lineTooFar else .noLine)

def sourceLine (source line : Json) : Except Failure String :=
  match source with
  | .str text =>
    match line with
    | .real x =>
      match x with
      | .finite negative m e =>
        let (num, den) := Number.Binary64.ratio m e
        if negative || num ≤ (Text.lines text).length * den then .error .brokenLine else .ok ""
      | .infinite true => .error .brokenLine
      | _ => .ok ""
    | line =>
      match line.whole? with
      | some n => lineAt (Text.lines text) n
      | none => .error (.noNumber line.sort)
  | v => .error (.shape (.noOperation v.sort "split"))

def caretIndent (column : Json) : Except Failure String :=
  match column.minus (.int 1) with
  | .error e => .error (.shape e)
  | .ok (.int n) =>
    if countLimit ≤ n.natAbs then .error .columnTooFar
    else .ok (String.ofList (List.replicate n.toNat ' '))
  | .ok _ => .error .brokenColumn

def statement (path : Json) (p : Problem) : String :=
  colored white s!"en {path.display}:{p.line.display}:{p.column.display}" ++ "\n" ++
    "\n" ++ colored cyan "Problema:" ++ " " ++ colored white p.message.display ++ "\n"

def numberedLine (line : Json) (text : String) : String :=
  "\n  " ++ colored purple (line.display ++ " |") ++ " " ++ text ++ "\n"

def caretLine (indent : String) : String :=
  "    " ++ colored purple "|" ++ " " ++ indent ++ colored red "^" ++ "\n"

def hintText (hint : Json) : String :=
  if hint.truthy then "\n" ++ colored yellow "Sugerencia:" ++ " " ++ colored white hint.display ++ "\n"
  else ""

def body (path source : Json) (p : Problem) : String × Option Failure :=
  if isGiven p.line && isGiven p.column then
    match sourceLine source p.line with
    | .error e => ("", some e)
    | .ok text =>
      let shown := statement path p ++ numberedLine p.line text
      match caretIndent p.column with
      | .error e => (shown, some e)
      | .ok indent => (shown ++ caretLine indent ++ hintText p.hint, none)
  else (colored white p.message.display ++ "\n", none)

def report (path source : Json) (p : Problem) : String × Option Failure :=
  let top := "\n" ++ colored red (title p) ++ "\n"
  match body path source p with
  | (text, none) => (top ++ text ++ ending p, none)
  | (text, some e) => (top ++ text, some e)

end ScriptWorkbench.Report
