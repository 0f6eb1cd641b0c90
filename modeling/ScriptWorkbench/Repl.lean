/-
The dialogue with the user at a terminal.

Lines are gathered until they compile; then the code is executed and the gathering starts anew.
-/
import ScriptWorkbench.Compile
import ScriptWorkbench.Execution
import ScriptWorkbench.Text.LetterCase

namespace ScriptWorkbench.Repl

/-! ## What lies outside -/

/-- A value that a name is bound to; what cannot be shown is hidden. -/
inductive Value where
  | data (value : Json)
  | hidden
deriving Repr

/-- What the user answers to a prompt. -/
inductive Input where
  | line (text : String)
  | interrupt
deriving Repr, DecidableEq

/-- What the dialogue meets with. Executions and starts of programs are numbered, and each may fail. -/
structure Surroundings where
  files : Files
  interpreter : String
  bindings : List (String × Value)
  failure : Nat → Option Raised
  launchFailure : Nat → Option Raised

/-- Something that a line asks to start. -/
inductive Launch where
  | shell (command : String)
  | program (words : List String)
deriving Repr, DecidableEq

/-- The two prompts. -/
inductive Prompt where
  | fresh
  | continued
deriving Repr, DecidableEq

/-! ## State -/

/-- A dialogue: the lines gathered, the names bound, and all that was printed, started and run. -/
structure State where
  gathered : List String
  bindings : List (String × Value)
  printed : String
  reported : String
  launches : List Launch
  executions : List Execution
  prompts : List Prompt

/-- What ends a dialogue that nobody asked to leave. -/
inductive Breakdown where
  | compile (error : CompileError)
  | raised (failure : Raised)
deriving Repr, DecidableEq

/-- How a dialogue goes on behind a line. -/
inductive Next where
  | continue
  | leave
  | breakDown (cause : Breakdown)
deriving Repr, DecidableEq

/-! ## Showing -/

def style (number : Nat) : String :=
  s!"\x1b[{number}m"

def bright (text : String) : String :=
  style 1 ++ text ++ style 22

def Prompt.text : Prompt → String
  | .fresh => style 32 ++ style 1 ++ "opn> " ++ style 0
  | .continued => style 33 ++ "  ... " ++ style 0

def welcome : String :=
  bright "Welcome to the OPN REPL!" ++ "\n" ++ " - Type OPN code to execute it.\n" ++
    " - Type `!command` to run a shell command (e.g., `!dir`).\n" ++
    " - Type `exit` or `exit;` or press Ctrl+D to quit.\n"

def farewell : String :=
  "\n" ++ bright "Exiting OPN REPL." ++ "\n"

def State.initial : State := ⟨[], [], welcome, "", [], [], []⟩

def State.print (s : State) (text : String) : State :=
  { s with printed := s.printed ++ text }

def State.report (s : State) (message : String) : State :=
  { s with reported := s.reported ++ style 31 ++ "Error: " ++ message ++ "\n", gathered := [] }

def shorten (text : String) : String :=
  if 60 < text.length then String.ofList (text.toList.take 57) ++ "..." else text

def showVariable (v : String × Value) : String :=
  let name := "  " ++ style 36 ++ v.1 ++ style 0
  match v.2 with
  | .data value => s!"{name} ({value.sort}): {shorten value.literal}\n"
  | .hidden => name ++ ": <unprintable value>\n"

def showBindings (bindings : List (String × Value)) : String :=
  let shown := bindings.filter fun v => !Text.startsWith v.1 "__"
  bright "--- Defined Variables & Functions ---" ++ "\n" ++
    String.join ((shown.mergeSort fun a b => a.1 ≤ b.1).map showVariable)

/-! ## Executing -/

def execute (w : Surroundings) (e : Execution) (s : State) : Option Raised × State :=
  (w.failure s.executions.length,
   { s with executions := s.executions ++ [e], bindings := w.bindings })

/-- A script that ends too early is not an error, it only needs more lines. -/
def needsMore (message : String) : Bool :=
  Text.occursIn "Unexpected token 'EOF'" message || Text.occursIn "Unterminated" message

def scriptError (s : State) (message : String) : Next × State :=
  if needsMore message then (.continue, s) else (.continue, s.report message)

/-- What is done about a failure that does not ask for more lines. -/
def settle (s : State) (r : Raised) : Next × State :=
  match r.sort with
  | .script | .badCode => (.continue, s.report r.message)
  | .brokenOff => (.leave, s.print farewell)
  | .missingFile | .other => (.breakDown (.raised r), s)

/-- Errors of the script, and code that turns out to be none, are reported; any other failure ends the
dialogue. -/
def afterFailure (s : State) (r : Raised) : Next × State :=
  if r.sort == .script && needsMore r.message then (.continue, s) else settle s r

def runCode (w : Surroundings) (s : State) (code : String) : Next × State :=
  if Text.trim code == "" then (.continue, { s with gathered := [] })
  else
    match execute w ⟨"<opn-repl>", code⟩ s with
    | (none, s) => (.continue, { s with gathered := [] })
    | (some r, s) => afterFailure s r

def gather (w : Surroundings) (s : State) (line : String) : Next × State :=
  let s := { s with gathered := s.gathered ++ [line] }
  match compile w.files .prompt ("\n".intercalate s.gathered) with
  | .ok code => runCode w s code
  | .error e =>
    if e.isScriptError then scriptError s e.message else (.breakDown (.compile e), s)

/-! ## The shell -/

/-- What stands behind the exclamation mark. -/
def shellCommand (bare : String) : String := Text.trim (String.ofList (bare.toList.drop 1))

/-- The answer to a command that needs no program. -/
def answer? (command : String) : Option String :=
  if command == "opn --version" then some "OPN Language Version: 0.5.0\n"
  else if command == "opn --version -C" then some "OPN Editor/Corrector Version: 1.2.0\n"
  else none

/-- The program for a command: a call of the workbench itself is a program of the target language. -/
def launchOf (w : Surroundings) (command : String) : Launch :=
  if Text.startsWith command "opn " then
    let words := ((Text.words command).drop 1).filter (· != "run")
    .program ([w.interpreter, "-m", "prisma.cli"] ++
      words.map fun a => Text.replaceAll a "--run" "--execute")
  else .shell command

def asksForBindings (bare : String) : Bool :=
  Text.lower bare == "!vars" || Text.lower bare == "!globals"

/-- The program that a line asks for, without the blanks around it. -/
def launch? (w : Surroundings) (bare : String) : Option Launch :=
  if Text.lower bare == "cls" || Text.lower bare == "clear" then some (.shell "clear")
  else if Text.startsWith bare "!" && !asksForBindings bare && (answer? (shellCommand bare)).isNone then
    some (launchOf w (shellCommand bare))
  else none

/-- A program that cannot be started is a failure too. -/
def launch (w : Surroundings) (s : State) (l : Launch) : Next × State :=
  let started := { s with launches := s.launches ++ [l] }
  match w.launchFailure s.launches.length with
  | some r => settle started r
  | none => (.continue, started)

/-! ## The dialogue -/

def enter (w : Surroundings) (s : State) (line : String) : Next × State :=
  let bare := Text.trim line
  if Text.lower bare == "exit" || Text.lower bare == "exit;" then (.leave, s)
  else
    match launch? w bare with
    | some l => launch w s l
    | none =>
      if bare == "" then (.continue, s)
      else if asksForBindings bare then (.continue, s.print (showBindings s.bindings))
      else if Text.startsWith bare "!" then
        (.continue, s.print ((answer? (shellCommand bare)).getD ""))
      else gather w s line

def State.nextPrompt (s : State) : Prompt :=
  if s.gathered.isEmpty then .fresh else .continued

def State.prompt (s : State) : State :=
  { s with prompts := s.prompts ++ [s.nextPrompt] }

def converse (w : Surroundings) (s : State) : List Input → State × Option Breakdown
  | [] | .interrupt :: _ => (s.prompt.print farewell, none)
  | .line text :: rest =>
    match enter w s.prompt text with
    | (.continue, s) => converse w s rest
    | (.leave, s) => (s, none)
    | (.breakDown cause, s) => (s, some cause)

def opening (w : Surroundings) : Except CompileError Execution :=
  (compile w.files .file "").map fun code => ⟨"<opn-preamble>", code⟩

def run (w : Surroundings) (inputs : List Input) : State × Option Breakdown :=
  match opening w with
  | .error e => (.initial, some (.compile e))
  | .ok e =>
    match execute w e .initial with
    | (some r, s) => (s, some (.raised r))
    | (none, s) => converse w s inputs

end ScriptWorkbench.Repl
