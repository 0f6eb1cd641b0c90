/-
Programs as text of the target language.
-/
import ScriptWorkbench.Package.Search
import ScriptWorkbench.Target.Preamble
import ScriptWorkbench.Target.Render

namespace ScriptWorkbench.Target

open Ast

/-- A line, and how deep it stands. -/
structure Line where
  depth : Nat
  text : String
deriving Repr, DecidableEq

def Line.render (l : Line) : String :=
  String.ofList (List.replicate (4 * l.depth) ' ') ++ l.text

/-- What the emitter knows of its surroundings: the tokens that the program was read from, and what
imported names stand for. -/
structure Context where
  tokens : List Token
  resolve : String → Except FileError Package.Import

def importLines (ctx : Context) (depth : Nat) (package : String) :
    Except EmitError (List Line) :=
  match ctx.resolve package with
  | .error e => .error (.unreadable e)
  | .ok (.package code) => .ok [⟨depth, "# OPN Package: " ++ package⟩, ⟨depth, code⟩]
  | .ok (.native name) => .ok [⟨depth, "import " ++ name⟩]

/-- The first line of a function inside a block: its first parameter is the object itself, and a
constructor has a name of its own. -/
def methodHeader (name : String) (parameters : List String) : String :=
  let name := if name == "constructor" then "__init__" else name
  "def " ++ name ++ "(" ++ ", ".intercalate ("self" :: parameters) ++ "):"

def handlerHeader : Option String → String
  | some name => if name == "" then "except Exception:" else "except Exception as " ++ name ++ ":"
  | none => "except Exception:"

mutual

def emitStmt (ctx : Context) (depth : Nat) : Stmt → Except EmitError (List Line)
  | .letVar name value => do
    let value ← render ctx.tokens value
    return [⟨depth, name ++ " = " ++ value⟩]
  | .assign name value => do
    let value ← render ctx.tokens value
    return [⟨depth, name ++ " = " ++ value⟩]
  | .importModule package => importLines ctx depth package
  | .result none => .ok [⟨depth, "return"⟩]
  | .result (some value) => do
    let value ← render ctx.tokens value
    return [⟨depth, "return " ++ value⟩]
  | .expr value => do
    let value ← render ctx.tokens value
    return [⟨depth, value⟩]
  | .cond test body alternative => do
    let test ← render ctx.tokens test
    let body ← emitBody ctx (depth + 1) body
    let alternative ← emitAlternative ctx depth alternative
    return ⟨depth, "if " ++ test ++ ":"⟩ :: body ++ alternative
  | .forEach target source body => do
    let source ← render ctx.tokens source
    let body ← emitBody ctx (depth + 1) body
    return ⟨depth, "for " ++ target ++ " in " ++ source ++ ":"⟩ :: body
  | .loop test body => do
    let test ← render ctx.tokens test
    let body ← emitBody ctx (depth + 1) body
    return ⟨depth, "while " ++ test ++ ":"⟩ :: body
  | .guarded body name handler => do
    let body ← emitBody ctx (depth + 1) body
    let handler ← emitBody ctx (depth + 1) handler
    return ⟨depth, "try:"⟩ :: body ++ ⟨depth, handlerHeader name⟩ :: handler
  | .function name parameters body => do
    let body ← emitBody ctx (depth + 1) body
    return ⟨depth, methodHeader name parameters⟩ :: body
  | .foreign => .error (.misfit .notStatement)

/-- An empty block becomes a single `pass`. -/
def emitBody (ctx : Context) (depth : Nat) : Body → Except EmitError (List Line)
  | .block [] => .ok [⟨depth, "pass"⟩]
  | .block (s :: ss) => emitStmts ctx depth (s :: ss)
  | .single s => .error (.misfit (.noPart s.sort "statements"))
  | .foreign why => .error (.misfit why)

def emitAlternative (ctx : Context) (depth : Nat) : Option Body → Except EmitError (List Line)
  | none => .ok []
  | some body => do
    let body ← emitBody ctx (depth + 1) body
    return ⟨depth, "else:"⟩ :: body

def emitStmts (ctx : Context) (depth : Nat) : List Stmt → Except EmitError (List Line)
  | [] => .ok []
  | s :: ss => do
    let first ← emitStmt ctx depth s
    let others ← emitStmts ctx depth ss
    return first ++ others

end

def emitFunction (ctx : Context) (f : Function) : Except EmitError (List Line) := do
  let body ← emitBody ctx 1 f.body
  return ⟨0, "@profiler"⟩ ::
    ⟨0, "def " ++ f.name ++ "(" ++ ", ".intercalate f.parameters ++ "):"⟩ :: body

def classHeader (c : ClassDecl) : String :=
  match c.superclass with
  | none => "class " ++ c.name ++ ":"
  | some parent => "class " ++ c.name ++ "(" ++ parent ++ "):"

/-- A class keeps the functions of its body and nothing else. -/
def methodsOf : Body → Body
  | .block ss => .block (ss.filter fun s => s.sort == "Function")
  | body => body

def emitClass (ctx : Context) (c : ClassDecl) : Except EmitError (List Line) := do
  let body ← emitBody ctx 1 (methodsOf c.body)
  return ⟨0, classHeader c⟩ :: body

def emitEach {α : Type} (emit : α → Except EmitError (List Line)) :
    List α → Except EmitError (List Line)
  | [] => .ok []
  | a :: as => do
    let first ← emit a
    let others ← emitEach emit as
    return first ++ others

/-- What a program is written for. -/
inductive Mode where
  | file
  | prompt
deriving Repr, DecidableEq

/-- Loose statements come first, then classes, then functions, each function with a blank line after it. -/
def programLines (ctx : Context) (mode : Mode) (p : Program) : Except EmitError (List Line) := do
  let statements ← emitStmts ctx 0 p.statements
  let classes ← emitEach (emitClass ctx) p.classes
  let functions ←
    if mode = .prompt ∧ p.functions.isEmpty then emitBody ctx 0 (.block p.statements)
    else emitEach (fun f => (emitFunction ctx f).map (· ++ [⟨0, ""⟩])) p.functions
  return statements ++ classes ++ functions

def bodyText (lines : List Line) : String :=
  Text.trimEnd ("\n".intercalate (lines.map Line.render))

def mentionsDrawing (tokens : List Token) : Bool :=
  Text.occursIn "gfx" (" ".intercalate (tokens.map Token.value))

def beginning (tokens : List Token) : String :=
  if mentionsDrawing tokens then preamble ++ "\n\nfrom prisma import pygfx_api as gfx"
  else preamble

def mainGuard (p : Program) : String :=
  if p.functions.any (·.name == "main") then "if __name__ == \"__main__\":\n    main()" else ""

/-- In the interactive mode the lines are the whole output, and the loose statements of a program without
functions are written a second time. Otherwise the fixed beginning comes first, then the import of the drawing
functions if a token mentions them, then the lines, then the call of the main function if there is one. -/
def emit (ctx : Context) (mode : Mode) (p : Program) : Except EmitError String := do
  let lines ← programLines ctx mode p
  let body := bodyText lines
  match mode with
  | .prompt => return body
  | .file =>
    let parts := [beginning ctx.tokens, body, mainGuard p].filter (· != "")
    return Text.trimEnd ("\n\n".intercalate parts) ++ "\n"

def Context.ofFiles (fs : Files) (tokens : List Token) : Except EmitError Context :=
  match Package.Search.initial fs with
  | .error e => .error (.unreadable e)
  | .ok search => .ok ⟨tokens, fun name => (search.resolve fs name).1⟩

end ScriptWorkbench.Target
