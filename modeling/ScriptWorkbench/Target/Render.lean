/-
Expressions as text of the target language.
-/
import ScriptWorkbench.Ast.Basic
import ScriptWorkbench.Files.Basic
import ScriptWorkbench.Token.Basic

namespace ScriptWorkbench.Target

open Ast

/-- Why a program cannot be written. -/
inductive EmitError where
  | misfit (why : Misfit)
  | unreadable (error : FileError)
deriving Repr, DecidableEq

def EmitError.message : EmitError → String
  | .misfit why => why.message
  | .unreadable error => error.message

/-- A call of one of these names calls the name given here; a name counts with its dots. -/
def callAliases : List (String × String) :=
  [("c.printf", "c_printf"), ("cpp.cout", "cpp_cout"), ("cs.write_line", "cs_write_line"),
   ("py.print", "py_print"), ("py.breakpoint", "py_breakpoint"), ("py.input", "py_input"),
   ("py.random.randint", "py_random_randint"), ("css.set", "css_set"), ("str.length", "len"),
   ("str.charAt", "lambda s, i: s[i]"), ("js.log", "js_log")]

def dottedName? : Expr → Option String
  | .name n => some n
  | .attribute target field => (dottedName? target).map fun base => base ++ "." ++ field
  | _ => none

def renderUnary (op : UnaryOp) (operand : String) : String :=
  match op with
  | .negate => "-" ++ operand
  | .not => "not " ++ operand

/-- For a tree built elsewhere whose callee is the single name `py.print`, the line of the first token with
that text becomes the first argument. -/
def injectedLine? (tokens : List Token) (callee : Expr) : Option Nat :=
  match callee with
  | .name n =>
    if n == "py.print" then (tokens.find? (·.value == n)).map (·.position.line) else none
  | _ => none

def joinArguments (line : Option Nat) (arguments : List String) : String :=
  let text := ", ".intercalate arguments
  match line with
  | some n => toString n ++ ", " ++ text
  | none => text

mutual

/-- Binary operators are set in parentheses, prefix operators are not. -/
def render (tokens : List Token) : Expr → Except EmitError String
  | .literal l => .ok l.quoted
  | .name n => .ok n
  | .this => .ok "self"
  | .attribute target field => do
    let target ← render tokens target
    return target ++ "." ++ field
  | .unary op operand => do
    let operand ← render tokens operand
    return renderUnary op operand
  | .binary left op right => do
    let left ← render tokens left
    let right ← render tokens right
    return "(" ++ left ++ " " ++ op.symbol ++ " " ++ right ++ ")"
  | .range first last => do
    let first ← render tokens first
    let last ← render tokens last
    return "range(" ++ first ++ ", " ++ last ++ " + 1)"
  | .list elements => do
    let elements ← renderAll tokens elements
    return "[" ++ ", ".intercalate elements ++ "]"
  | .index target position => do
    let target ← render tokens target
    let position ← render tokens position
    return target ++ "[" ++ position ++ "]"
  | .call callee arguments => do
    let arguments ← renderAll tokens arguments
    let text := joinArguments (injectedLine? tokens callee) arguments
    match (dottedName? callee).bind fun n => callAliases.lookup n with
    | some name => return name ++ "(" ++ text ++ ")"
    | none =>
      let callee ← render tokens callee
      return callee ++ "(" ++ text ++ ")"
  | .foreign why => .error (.misfit why)

def renderAll (tokens : List Token) : List Expr → Except EmitError (List String)
  | [] => .ok []
  | e :: es => do
    let first ← render tokens e
    let others ← renderAll tokens es
    return first :: others

end

end ScriptWorkbench.Target
