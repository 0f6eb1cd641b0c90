/-
The console of the editor.

It takes a line, writes it down and carries it out. Processes and evaluation happen outside; their results are
given beforehand and the requests are recorded.
-/
import ScriptWorkbench.Editor.Guide
import ScriptWorkbench.Files.Basic
import ScriptWorkbench.Lint

namespace ScriptWorkbench.Editor

/-! ## What lies outside -/

/-- What comes of a process. -/
inductive ProcessResult where
  | finished (stdout stderr : String) (code : Int)
  | timedOut
  | failed (message : String)
deriving Repr, DecidableEq

/-- The lines entered so far, which of them is shown, and the line that is being written. The index
is one past the last line after a line was entered. -/
structure Console where
  history : List String
  index : Int
  input : String
deriving Repr, DecidableEq, Inhabited

/-- How the evaluation of a piece of the target language goes: as an expression first, and as a
statement if that fails. The console is within reach of the code, which may leave another one behind. -/
structure Evaluation where
  value : Option String
  expressionError : Option String
  statementError : Option String
  console : Option Console
deriving Repr, DecidableEq

/-- What the surroundings answer while a line is worked off. -/
structure Outside where
  interpreter : String
  process : ProcessResult
  evaluation : Evaluation
  yes : Bool
  openPath : String
  savePath : String
  term : Option String
deriving Repr, DecidableEq

/-- What the user is shown or the surroundings are asked for. -/
inductive Event where
  | question (title text : String)
  | information (title text : String)
  | problem (title text : String)
  | warning (title text : String)
  | process (command : List String) (seconds : Nat)
  | evaluate (code : String)
  | execute (code : String)
  | close
  | field (name : String)
  | undo
  | redo
deriving Repr, DecidableEq

/-! ## State -/

def Console.fresh : Console := ⟨[], -1, ""⟩

/-- What breaks an action off: the files, or a line that there is not. -/
inductive Failure where
  | files (error : FileError)
  | noSuchLine

/-- What a line of the console has done so far. -/
structure Transcript where
  files : Files
  written : List Piece
  events : List Event
  failure : Option Failure

/-- Working off a line of the console. -/
abbrev Run := StateM Transcript

def write (text style : String) : Run Unit :=
  modify fun t => { t with written := t.written ++ [⟨text ++ "\n", style⟩] }

def writeError (message : String) : Run Unit :=
  write ("Error: " ++ message) "error"

def record (e : Event) : Run Unit :=
  modify fun t => { t with events := t.events ++ [e] }

/-! ## Processes -/

def commandFor (o : Outside) (action file : String) : List String :=
  [o.interpreter, "-m", "prisma", action, file]

def writeOutput (stdout stderr : String) : Run Unit := do
  if stdout != "" then write stdout "normal"
  if stderr != "" then write stderr "error"

def runFile (o : Outside) (file : String) : Run Unit := do
  record (.process (commandFor o "run" file) 30)
  match o.process with
  | .timedOut => writeError "Tiempo de ejecución excedido (30s)"
  | .failed message => writeError message
  | .finished stdout stderr code =>
    writeOutput stdout stderr
    if code = 0 then write "Ejecución completada exitosamente" "success"
    else write s!"Ejecución terminó con código {code}" "error"

def quotedCommand (command : List String) : String :=
  "[" ++ ", ".intercalate (command.map Text.quote) ++ "]"

def transpileFile (o : Outside) (file : String) : Run Unit := do
  let command := commandFor o "transpile" file
  record (.process command 10)
  match o.process with
  | .timedOut => writeError s!"Command '{quotedCommand command}' timed out after 10 seconds"
  | .failed message => writeError message
  | .finished stdout stderr code =>
    writeOutput stdout stderr
    if code = 0 then write "Transpilación completada" "success"

/-! ## Files -/

def issueStyle (i : Lint.Issue) : String :=
  i.gravity.name

def writeIssues (name : String) : List Lint.Issue → Run Unit
  | [] => write s!"✓ No se encontraron problemas en {name}" "success"
  | issues => do
    write s!"Se encontraron {issues.length} problema(s):" "warning"
    for i in issues do
      write s!"  Línea {i.line}: {i.message}" (issueStyle i)

def checkFile (file : String) : Run Unit := do
  match (← get).files.readText file with
  | .error e => writeError e.message
  | .ok source => writeIssues file (Lint.check source)

def sourceExtensions : List String := [".prisma", ".opn", ".py"]

def listedName (fs : Files) (directory name : String) : String :=
  if fs.isDirectory (directory ++ "/" ++ name) then s!"  📁 {name}/"
  else if sourceExtensions.contains (Path.extension name) then s!"  📄 {name}"
  else s!"  📋 {name}"

def listFiles (directory : String) : Run Unit := do
  let fs := (← get).files
  match fs.list directory with
  | .error e => writeError e.message
  | .ok entries =>
    match fs.absolute directory with
    | .error e => writeError e.message
    | .ok path =>
      write s!"Archivos en {path.toString}:" "info"
      for name in (entries.map (·.1)).mergeSort (· ≤ ·) do
        write (listedName fs directory name) "normal"

def changeDirectory (directory : String) : Run Unit := do
  match (← get).files.enter directory with
  | .error e => writeError e.message
  | .ok fs =>
    modify fun t => { t with files := fs }
    match fs.workingPath with
    | .error e => writeError e.message
    | .ok path => write s!"Directorio cambiado a: {path.toString}" "success"

def sayDirectory : Run Unit := do
  match (← get).files.workingPath with
  | .error e => modify fun t => { t with failure := some (.files e) }
  | .ok path => write path.toString "normal"

/-! ## Evaluation -/

def evaluate (o : Outside) (code : String) : Run Unit := do
  record (.evaluate code)
  match o.evaluation.expressionError, o.evaluation.value with
  | none, some value => write value "success"
  | none, none => pure ()
  | some _, _ =>
    record (.execute code)
    match o.evaluation.statementError with
    | none => write "Código ejecutado" "success"
    | some message => writeError message

/-- The console after a command: evaluated code may have put another in its place. -/
def Outside.leaves (o : Outside) (command : String) (c : Console) : Console :=
  if command == "python" then o.evaluation.console.getD c else c

/-! ## Commands -/

def helpText : String :=
  "\nComandos disponibles:\n" ++
  "  help              - Muestra esta ayuda\n" ++
  "  clear             - Limpia la consola\n" ++
  "  version           - Muestra la versión de OPN\n" ++
  "  run <archivo>     - Ejecuta un archivo .prisma\n" ++
  "  transpile <arch>  - Transpila un archivo .prisma a Python\n" ++
  "  check <archivo>   - Verifica errores en un archivo\n" ++
  "  ls [directorio]   - Lista archivos en el directorio\n" ++
  "  pwd               - Muestra el directorio actual\n" ++
  "  cd <directorio>   - Cambia el directorio actual\n" ++
  "  python <código>   - Ejecuta código Python directamente\n" ++
  "  exit              - Cierra el editor\n"

def withFirst (arguments : List String) (missing : String) (act : String → Run Unit) : Run Unit :=
  match arguments with
  | [] => writeError missing
  | a :: _ => act a

def carryOut (o : Outside) (command : String) (arguments : List String) : Run Unit :=
  match command with
  | "help" => write helpText "info"
  | "clear" => pure ()
  | "version" => write "OPN Language v1.0.0" "success"
  | "run" => withFirst arguments "Especifica un archivo para ejecutar" (runFile o)
  | "transpile" => withFirst arguments "Especifica un archivo para transpilar" (transpileFile o)
  | "check" => withFirst arguments "Especifica un archivo para verificar" checkFile
  | "ls" => listFiles (arguments.headD ".")
  | "pwd" => sayDirectory
  | "cd" => withFirst arguments "Especifica un directorio" changeDirectory
  | "python" => evaluate o (" ".intercalate arguments)
  | "exit" => write "Usa el botón de cerrar para salir del editor" "warning"
  | other =>
    write (s!"Comando desconocido: {other}. " ++ "Escribe \"help\" para ver comandos disponibles")
      "error"

def Console.enter (c : Console) (o : Outside) : Run Console := do
  let line := Text.trim c.input
  match Text.words line with
  | [] => return c
  | command :: arguments =>
    write ("> " ++ line) "info"
    carryOut o (Text.lower command) arguments
    let history := c.history ++ [line]
    return o.leaves (Text.lower command) ⟨history, history.length, ""⟩

/-! ## Going through the lines entered -/

/-- The line of an index; a negative one is counted from the end. -/
def Console.line? (c : Console) (index : Int) : Option String :=
  let i := if 0 ≤ index then index else index + c.history.length
  if 0 ≤ i then c.history[i.toNat]? else none

/-- Go to an index and show its line. The input is empty before the line is looked up. -/
def Console.showAt (c : Console) (index : Int) : Option Failure × Console :=
  match c.line? index with
  | some line => (none, { c with index, input := line })
  | none => (some .noSuchLine, { c with index, input := "" })

def Console.up (c : Console) : Option Failure × Console :=
  if !c.history.isEmpty && 0 < c.index then c.showAt (c.index - 1) else (none, c)

def Console.down (c : Console) : Option Failure × Console :=
  let last : Int := c.history.length - 1
  if !c.history.isEmpty && c.index < last then c.showAt (c.index + 1)
  else if c.index = last then (none, { c with index := c.history.length, input := "" })
  else (none, c)

end ScriptWorkbench.Editor
