/-
Programs of the script language as trees.

Trees usually come from the parser. The emitter also takes trees built elsewhere, which may hold a value of
another sort where an expression, a statement or a block belongs: such a value is `foreign`, and all that is
kept of it is why it does not fit. The branch after `else` may be a single statement, as after `else if`.
-/
import ScriptWorkbench.Number.Written
import ScriptWorkbench.Text.Quoted

namespace ScriptWorkbench.Ast

/-- A value that stands in a source. -/
inductive Literal where
  | int (value : Int)
  | real (value : Number.Binary64)
  | text (value : String)
  | truth (value : Bool)
deriving Repr, DecidableEq

def Literal.plain : Literal → String
  | .int n => toString n
  | .real x => Number.Format.plain.write x
  | .text s => s
  | .truth b => if b then "True" else "False"

def Literal.quoted : Literal → String
  | .text s => Text.quote s
  | l => l.plain

/-- Operators before an operand. -/
inductive UnaryOp where
  | negate
  | not
deriving Repr, DecidableEq

/-- Operators between operands. -/
inductive BinaryOp where
  | or | and | equal | notEqual | less | lessEqual | greater | greaterEqual
  | add | subtract | multiply | divide
  | other (text : String)
deriving Repr, DecidableEq

/-- Why something does not fit the place it stands at in a tree. -/
inductive Misfit where
  | notStatement
  | notExpression
  | noPart (sort part : String)
  | noElements (sort : String)
  | notText (place : Nat) (sort : String)
  | notLine (sort : String)
  | notName (sort : String)
  | notDirectory (sort : String)
deriving Repr, DecidableEq

def Misfit.message : Misfit → String
  | .notStatement => "Unsupported statement"
  | .notExpression => "Unsupported expression"
  | .noPart sort part => s!"'{sort}' object has no attribute '{part}'"
  | .noElements sort => s!"'{sort}' object is not iterable"
  | .notText place sort => s!"sequence item {place}: expected str instance, {sort} found"
  | .notLine sort => "can only concatenate str (not \"" ++ sort ++ "\") to str"
  | .notName sort => s!"unhashable type: '{sort}'"
  | .notDirectory sort => s!"unsupported operand type(s) for /: 'PosixPath' and '{sort}'"

/-- Expressions. -/
inductive Expr where
  | literal (value : Literal)
  | name (value : String)
  | this
  | attribute (target : Expr) (field : String)
  | unary (op : UnaryOp) (operand : Expr)
  | binary (left : Expr) (op : BinaryOp) (right : Expr)
  | range (first last : Expr)
  | list (elements : List Expr)
  | index (target position : Expr)
  | call (callee : Expr) (arguments : List Expr)
  | foreign (why : Misfit)
deriving Repr, Inhabited

mutual

/-- Statements. -/
inductive Stmt where
  | letVar (name : String) (value : Expr)
  | assign (name : String) (value : Expr)
  | importModule (package : String)
  | result (value : Option Expr)
  | expr (value : Expr)
  | cond (test : Expr) (body : Body) (alternative : Option Body)
  | forEach (target : String) (source : Expr) (body : Body)
  | loop (test : Expr) (body : Body)
  | guarded (body : Body) (caught : Option String) (handler : Body)
  | function (name : String) (parameters : List String) (body : Body)
  | foreign

/-- What stands where a block is expected. -/
inductive Body where
  | block (statements : List Stmt)
  | single (statement : Stmt)
  | foreign (why : Misfit)

end

deriving instance Repr for Stmt, Body

instance : Inhabited Stmt := ⟨.result none⟩

instance : Inhabited Body := ⟨.block []⟩

/-- A function, or a main block under the name of one. -/
structure Function where
  name : String
  parameters : List String
  body : Body
deriving Repr, Inhabited

/-- A class. -/
structure ClassDecl where
  name : String
  superclass : Option String
  body : Body
deriving Repr, Inhabited

end Ast

/-- A program. How its parts were mixed in the source is not kept. -/
structure Program where
  functions : List Ast.Function
  statements : List Ast.Stmt
  classes : List Ast.ClassDecl
deriving Repr, Inhabited

namespace Ast

/-! ## Sorts of nodes -/

def Stmt.sort : Stmt → String
  | .letVar .. => "LetStatement"
  | .assign .. => "SetStatement"
  | .importModule _ => "ImportStatement"
  | .result _ => "ReturnStatement"
  | .expr _ => "ExpressionStatement"
  | .cond .. => "IfStatement"
  | .forEach .. => "ForStatement"
  | .loop .. => "WhileStatement"
  | .guarded .. => "TryStatement"
  | .function .. => "Function"
  | .foreign => "object"

def BinaryOp.symbol : BinaryOp → String
  | .or => "or"
  | .and => "and"
  | .equal => "=="
  | .notEqual => "!="
  | .less => "<"
  | .lessEqual => "<="
  | .greater => ">"
  | .greaterEqual => ">="
  | .add => "+"
  | .subtract => "-"
  | .multiply => "*"
  | .divide => "/"
  | .other text => text

def BinaryOp.ofSymbol (symbol : String) : BinaryOp :=
  match [or, and, equal, notEqual, less, lessEqual, greater, greaterEqual, add, subtract, multiply,
    divide].find? (·.symbol == symbol) with
  | some op => op
  | none => .other symbol

def UnaryOp.symbol : UnaryOp → String
  | .negate => "-"
  | .not => "not"

end Ast

end ScriptWorkbench
