/-
From source text to the text of the target language: the first failure of the three stages is the outcome.
-/
import ScriptWorkbench.Ast.Parser
import ScriptWorkbench.Target.Emit

namespace ScriptWorkbench

/-- Why a source is not compiled. -/
inductive CompileError where
  | scan (error : Token.ScanError)
  | parse (error : Parser.Failure)
  | emit (error : Target.EmitError)
  | file (error : FileError)
deriving Repr, DecidableEq

def CompileError.message : CompileError → String
  | .scan e => e.message
  | .parse e => e.message
  | .emit e => e.message
  | .file e => e.message

/-- A failure that is the script's own fault and is reported as such: an unfit character or token, or
a construct that cannot be emitted. -/
def CompileError.isScriptError : CompileError → Bool
  | .scan .ranOff => false
  | .scan _ => true
  | .parse (.unexpected ..) | .parse (.misplaced _) => true
  | .parse _ => false
  | .emit (.misfit .notStatement) | .emit (.misfit .notExpression) => true
  | .emit _ => false
  | .file _ => false

def CompileError.isMissing : CompileError → Bool
  | .file e | .emit (.unreadable e) => e.isMissing
  | _ => false

def readProgram (source : String) : Except CompileError (List Token × Program) :=
  match Token.scan source with
  | .error e => .error (.scan e)
  | .ok tokens =>
    match Parser.parse tokens with
    | .error e => .error (.parse e)
    | .ok p => .ok (tokens, p)

def compile (fs : Files) (mode : Target.Mode) (source : String) : Except CompileError String :=
  match readProgram source with
  | .error e => .error e
  | .ok (tokens, p) =>
    ((Target.Context.ofFiles fs tokens).bind fun ctx => Target.emit ctx mode p).mapError .emit

def compileFile (fs : Files) (path : String) : Except CompileError String :=
  match fs.readText path with
  | .error e => .error (.file e)
  | .ok source => compile fs .file source

end ScriptWorkbench
