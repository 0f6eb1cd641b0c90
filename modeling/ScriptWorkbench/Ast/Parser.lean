/-
Reading a program from tokens.

The parser goes through the tokens from the left and never back. Which token a failure names is part of the
contract: it is the first one that cannot continue what was read so far. Every function takes a budget that
bounds the depth of the recursion.
-/
import ScriptWorkbench.Ast.Basic
import ScriptWorkbench.Number.Read
import ScriptWorkbench.Token.Scan

namespace ScriptWorkbench.Parser

open Ast Token

/-! ## Failures -/

/-- What the parser was looking for. -/
inductive Want where
  | moduleName | className | superclassName | functionName | openParameters | closeParameters
  | parameterName | openBlock | closeBlock | letName | letEqual | letEnd | assignEnd | returnEnd
  | loopVariable | loopIn | catchWord | statementEnd | attributeName | closeIndex | closeArguments
  | closeGroup | closeList | expression
deriving Repr, DecidableEq

/-- Why tokens are no program. -/
inductive Failure where
  | unexpected (want : Want) (found : Token)
  | misplaced (found : Token)
  | ranOff
  | badNumber (error : Number.ReadError)
  | exhausted
deriving Repr, DecidableEq

def Want.describe (found : Token) : Want → String
  | .moduleName => "Expected module name after 'import'"
  | .className => "Expected class name."
  | .superclassName => "Expected superclass name."
  | .functionName => "Expected function name"
  | .openParameters => "Expected '(' after function name"
  | .closeParameters => "Expected ')' after parameters"
  | .parameterName => "Expected parameter name"
  | .openBlock => "Expected '\x7b' to start block"
  | .closeBlock => "Expected '\x7d' to close block"
  | .letName => "Expected identifier after let"
  | .letEqual => "Expected '=' in let statement"
  | .letEnd => "Expected ';' after let statement"
  | .assignEnd => "Expected ';' after set statement"
  | .returnEnd => "Expected ';' after return value"
  | .loopVariable => "Expected loop variable"
  | .loopIn => "Expected 'in' after loop variable"
  | .catchWord => "Expected 'catch' after try block"
  | .statementEnd => "Expected ';' after expression"
  | .attributeName => "Expected attribute name"
  | .closeIndex => "Expected ']' after index"
  | .closeArguments => "Expected ')' after arguments"
  | .closeGroup => "Expected ')' after expression"
  | .closeList => "Expected ']' to close list"
  | .expression => "Unexpected token '" ++ found.value ++ "'"

def Failure.message : Failure → String
  | .unexpected want found => want.describe found ++ found.position.describe
  | .misplaced found =>
    "Unexpected token '" ++ found.value ++ "'. Only 'func', 'main', 'class', or 'import' are " ++
      "allowed at the top level." ++ found.position.describe
  | .ranOff => "list index out of range"
  | .badNumber error => error.message
  | .exhausted => "budget exhausted"

/-- What was read, and the tokens left. -/
abbrev Read (α : Type) := α × List Token

def expect (kind : Kind) (want : Want) : List Token → Except Failure (Read Token)
  | [] => .error .ranOff
  | t :: ts => if t.kind = kind then .ok (t, ts) else .error (.unexpected want t)

def reject {α : Type} (want : Want) : List Token → Except Failure (Read α)
  | [] => .error .ranOff
  | t :: _ => .error (.unexpected want t)

def nextIs (kind : Kind) (ts : List Token) : Bool :=
  (ts.head?.map Token.kind) == some kind

/-! ## Expressions -/

/-- The operators of one level, with the tokens for them. -/
abbrev Level := List (Kind × BinaryOp)

def levels : List Level :=
  [[(.orWord, .or)],
   [(.andWord, .and)],
   [(.equalEqual, .equal), (.bangEqual, .notEqual)],
   [(.less, .less), (.lessEqual, .lessEqual), (.greater, .greater), (.greaterEqual, .greaterEqual)],
   [(.plus, .add), (.minus, .subtract)],
   [(.star, .multiply), (.slash, .divide)]]

def numberLiteral (text : String) : Except Number.ReadError Literal :=
  if text.toList.contains '.' then (Number.readReal text).map .real
  else (Number.readInt text).map .int

mutual

def binary : Nat → List Level → List Token → Except Failure (Read Expr)
  | 0, _, _ => .error .exhausted
  | n + 1, [], ts => unary n ts
  | n + 1, level :: tighter, ts => do
    let (left, ts) ← binary n tighter ts
    binaryRest n level tighter left ts

def binaryRest : Nat → Level → List Level → Expr → List Token → Except Failure (Read Expr)
  | 0, _, _, _, _ => .error .exhausted
  | _ + 1, _, _, left, [] => .ok (left, [])
  | n + 1, level, tighter, left, t :: ts =>
    match level.lookup t.kind with
    | none => .ok (left, t :: ts)
    | some op => do
      let (right, ts) ← binary n tighter ts
      binaryRest n level tighter (.binary left op right) ts

def unary : Nat → List Token → Except Failure (Read Expr)
  | 0, _ => .error .exhausted
  | n + 1, ts =>
    match ts with
    | t :: rest =>
      match t.kind with
      | .notWord => do
        let (operand, rest) ← unary n rest
        return (.unary .not operand, rest)
      | .minus => do
        let (operand, rest) ← unary n rest
        return (.unary .negate operand, rest)
      | _ => do
        let (target, rest) ← primary n ts
        trailers n target rest
    | [] => .error .ranOff

def trailers : Nat → Expr → List Token → Except Failure (Read Expr)
  | 0, _, _ => .error .exhausted
  | _ + 1, target, [] => .ok (target, [])
  | n + 1, target, t :: ts =>
    match t.kind with
    | .leftParen =>
      if nextIs .rightParen ts then trailers n (.call target []) (ts.drop 1)
      else do
        let (arguments, ts) ← items n ts
        let (_, ts) ← expect .rightParen .closeArguments ts
        trailers n (.call target arguments) ts
    | .dot => do
      let (field, ts) ← expect .identifier .attributeName ts
      trailers n (.attribute target field.value) ts
    | .leftBracket => do
      let (position, ts) ← binary n levels ts
      let (_, ts) ← expect .rightBracket .closeIndex ts
      trailers n (.index target position) ts
    | _ => .ok (target, t :: ts)

def primary : Nat → List Token → Except Failure (Read Expr)
  | 0, _ => .error .exhausted
  | _ + 1, [] => .error .ranOff
  | n + 1, t :: ts =>
    match t.kind with
    | .number =>
      match numberLiteral t.value with
      | .ok value => .ok (.literal value, ts)
      | .error e => .error (.badNumber e)
    | .text => .ok (.literal (.text t.value), ts)
    | .trueWord => .ok (.literal (.truth true), ts)
    | .falseWord => .ok (.literal (.truth false), ts)
    | .identifier => .ok (.name t.value, ts)
    | .thisWord => .ok (.this, ts)
    | .leftParen => do
      let (inner, ts) ← binary n levels ts
      let (_, ts) ← expect .rightParen .closeGroup ts
      return (inner, ts)
    | .leftBracket =>
      if nextIs .rightBracket ts then .ok (.list [], ts.drop 1)
      else do
        let (elements, ts) ← items n ts
        let (_, ts) ← expect .rightBracket .closeList ts
        return (.list elements, ts)
    | _ => .error (.unexpected .expression t)

def items : Nat → List Token → Except Failure (Read (List Expr))
  | 0, _ => .error .exhausted
  | n + 1, ts => do
    let (first, ts) ← binary n levels ts
    if nextIs .comma ts then
      let (others, ts) ← items n (ts.drop 1)
      return (first :: others, ts)
    else return ([first], ts)

end

def expression (n : Nat) (ts : List Token) : Except Failure (Read Expr) :=
  binary n levels ts

/-! ## Statements -/

def closedExpression (n : Nat) (want : Want) (ts : List Token) : Except Failure (Read Expr) := do
  let (value, ts) ← expression n ts
  let (_, ts) ← expect .semicolon want ts
  return (value, ts)

def loopSource (n : Nat) (ts : List Token) : Except Failure (Read Expr) := do
  let (first, ts) ← expression n ts
  if nextIs .dotDot ts then
    let (last, ts) ← expression n (ts.drop 1)
    return (.range first last, ts)
  else return (first, ts)

def caughtName : List Token → Option String × List Token
  | [] => (none, [])
  | t :: ts => if t.kind = .identifier then (some t.value, ts) else (none, t :: ts)

def startsAssignment : List Token → Bool
  | t :: u :: _ => t.kind = .identifier && u.kind = .equal
  | _ => false

mutual

def statement : Nat → List Token → Except Failure (Read Stmt)
  | 0, _ => .error .exhausted
  | _ + 1, [] => .error .ranOff
  | n + 1, t :: ts =>
    match t.kind with
    | .letWord => do
      let (name, ts) ← expect .identifier .letName ts
      let (_, ts) ← expect .equal .letEqual ts
      let (value, ts) ← closedExpression n .letEnd ts
      return (.letVar name.value value, ts)
    | .returnWord =>
      if nextIs .semicolon ts then .ok (.result none, ts.drop 1)
      else do
        let (value, ts) ← closedExpression n .returnEnd ts
        return (.result (some value), ts)
    | .ifWord => do
      let (test, ts) ← expression n ts
      let (body, ts) ← block n ts
      let (alternative, ts) ← alternative n ts
      return (.cond test (.block body) alternative, ts)
    | .forWord => do
      let (target, ts) ← expect .identifier .loopVariable ts
      let (_, ts) ← expect .inWord .loopIn ts
      let (source, ts) ← loopSource n ts
      let (body, ts) ← block n ts
      return (.forEach target.value source (.block body), ts)
    | .whileWord => do
      let (test, ts) ← expression n ts
      let (body, ts) ← block n ts
      return (.loop test (.block body), ts)
    | .tryWord => do
      let (body, ts) ← block n ts
      let (_, ts) ← expect .catchWord .catchWord ts
      let (name, ts) := caughtName ts
      let (handler, ts) ← block n ts
      return (.guarded (.block body) name (.block handler), ts)
    | _ =>
      if startsAssignment (t :: ts) then do
        let (value, ts) ← closedExpression n .assignEnd (ts.drop 1)
        return (.assign t.value value, ts)
      else do
        let (value, ts) ← closedExpression n .statementEnd (t :: ts)
        return (.expr value, ts)

def alternative : Nat → List Token → Except Failure (Read (Option Body))
  | 0, _ => .error .exhausted
  | _ + 1, [] => .ok (none, [])
  | n + 1, t :: ts =>
    if t.kind = .elseWord then
      if nextIs .ifWord ts then do
        let (inner, ts) ← statement n (ts.drop 1)
        return (some (.single inner), ts)
      else do
        let (body, ts) ← block n ts
        return (some (.block body), ts)
    else .ok (none, t :: ts)

def block : Nat → List Token → Except Failure (Read (List Stmt))
  | 0, _ => .error .exhausted
  | n + 1, ts => do
    let (_, ts) ← expect .leftBrace .openBlock ts
    blockRest n ts

def blockRest : Nat → List Token → Except Failure (Read (List Stmt))
  | 0, _ => .error .exhausted
  | n + 1, ts =>
    if nextIs .rightBrace ts then .ok ([], ts.drop 1)
    else do
      let (first, ts) ← statement n ts
      let (others, ts) ← blockRest n ts
      return (first :: others, ts)

end

/-! ## Programs -/

def parameterNames : Nat → List Token → Except Failure (Read (List String))
  | 0, _ => .error .exhausted
  | n + 1, ts => do
    let (name, ts) ← expect .identifier .parameterName ts
    if nextIs .comma ts then
      let (others, ts) ← parameterNames n (ts.drop 1)
      return (name.value :: others, ts)
    else return ([name.value], ts)

def parameters (n : Nat) (ts : List Token) : Except Failure (Read (List String)) :=
  if nextIs .rightParen ts then .ok ([], ts) else parameterNames n ts

def function (n : Nat) (ts : List Token) : Except Failure (Read Function) := do
  let (name, ts) ← expect .identifier .functionName ts
  let (_, ts) ← expect .leftParen .openParameters ts
  let (names, ts) ← parameters n ts
  let (_, ts) ← expect .rightParen .closeParameters ts
  let (body, ts) ← block n ts
  return (⟨name.value, names, .block body⟩, ts)

def mainBlock (n : Nat) (ts : List Token) : Except Failure (Read Function) := do
  let (body, ts) ← block n ts
  return (⟨"main", [], .block body⟩, ts)

def superclass (ts : List Token) : Except Failure (Read (Option String)) :=
  if nextIs .extendsWord ts then do
    let (name, ts) ← expect .identifier .superclassName (ts.drop 1)
    return (some name.value, ts)
  else .ok (none, ts)

def classDeclaration (n : Nat) (ts : List Token) : Except Failure (Read ClassDecl) := do
  let (name, ts) ← expect .identifier .className ts
  let (parent, ts) ← superclass ts
  let (body, ts) ← block n ts
  return (⟨name.value, parent, .block body⟩, ts)

/-- A loose statement that breaks off at the end of the input is dropped; and any other failure in one is
reported as a token that may not stand there. -/
def topLevel : Nat → List Token → Except Failure Program
  | 0, _ => .error .exhausted
  | _ + 1, [] => .error .ranOff
  | n + 1, t :: ts =>
    match t.kind with
    | .endOfInput => .ok ⟨[], [], []⟩
    | .importWord => .error (.unexpected .moduleName t)
    | .funcWord => do
      let (f, ts) ← function n ts
      let p ← topLevel n ts
      return { p with functions := f :: p.functions }
    | .mainWord => do
      let (f, ts) ← mainBlock n ts
      let p ← topLevel n ts
      return { p with functions := f :: p.functions }
    | .classWord => do
      let (c, ts) ← classDeclaration n ts
      let p ← topLevel n ts
      return { p with classes := c :: p.classes }
    | _ =>
      match statement n (t :: ts) with
      | .ok (s, ts) => do
        let p ← topLevel n ts
        return { p with statements := s :: p.statements }
      | .error (.unexpected _ found) =>
        if found.kind = .endOfInput then .ok ⟨[], [], []⟩ else .error (.misplaced found)
      | .error e => .error e

/-- A budget that no list of tokens exhausts: between two tokens the recursion goes less than sixteen
calls deep. -/
def budget (ts : List Token) : Nat :=
  16 * (ts.length + 1)

def parse (ts : List Token) : Except Failure Program :=
  topLevel (budget ts) ts

end ScriptWorkbench.Parser
