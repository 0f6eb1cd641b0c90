/-
The editor.

One text, the file it came from, and the panels around it. Panels are brought up to date only by the actions
that say so: a new file leaves line numbers and issues as they were.
-/
import ScriptWorkbench.Completion
import ScriptWorkbench.Editor.Buffer
import ScriptWorkbench.Editor.Console

namespace ScriptWorkbench.Editor

/-! ## State -/

/-- What is seen of the editor. -/
structure Desk where
  title : String
  file : Option String
  buffer : Buffer
  status : String
  cursorLabel : String
  lineNumbers : String
  issueList : String
  console : Console
  lastWord : String
deriving Repr, Inhabited

def programName : String := "OPN Editor v1.0"

def Desk.fresh : Desk :=
  ⟨programName, none, .empty, "Listo", "Línea: 1, Col: 1", "", "", .fresh, ""⟩

/-- The editor, its files, and what was done so far. -/
structure Session where
  desk : Desk
  files : Files
  written : List Piece
  guide : List Piece
  marks : List (String × String)
  events : List Event
  failure : Option Failure

def Session.ofFiles (fs : Files) : Session :=
  ⟨.fresh, fs, [], [], [], [], none⟩

/-- Something that is done in the editor. -/
abbrev Act := StateM Session

def adjust (f : Desk → Desk) : Act Unit :=
  modify fun s => { s with desk := f s.desk }

def inConsole {α : Type} (r : Run α) : Act α := do
  let s ← get
  let (a, t) := r.run ⟨s.files, s.written, s.events, s.failure⟩
  set { s with files := t.files, written := t.written, events := t.events, failure := t.failure }
  return a

def say (text style : String) : Act Unit :=
  inConsole (write text style)

def ask (e : Event) : Act Unit :=
  inConsole (record e)

/-! ## Panels -/

def numberLines (content : String) : String :=
  "\n".intercalate ((List.range (Text.countChar '\n' content)).map fun i => toString (i + 1))

def refreshLineNumbers : Act Unit :=
  adjust fun d => { d with lineNumbers := numberLines d.buffer.content }

def refreshCursor : Act Unit :=
  adjust fun d =>
    let (line, column) := d.buffer.cursorPlace
    { d with cursorLabel := s!"Línea: {line}, Col: {column + 1}" }

def issueLine (i : Lint.Issue) : String :=
  let icon := match i.gravity with
    | .error => "❌"
    | .warning => "⚠️"
  s!"{icon} Línea {i.line}: {i.message}\n"

def issueText : List Lint.Issue → String
  | [] => "✓ No se encontraron problemas\n"
  | issues => String.join (issues.map issueLine)

def Desk.issues (d : Desk) : List Lint.Issue :=
  Lint.check d.buffer.content

def refreshIssues : Act Unit :=
  adjust fun d => { d with issueList := issueText d.issues }

/-! ## Writing -/

def setText (text : String) (cursor : Nat) : Act Unit :=
  adjust fun d => { d with buffer := ⟨text, cursor⟩ }

def keyReleased (char : String) : Act Unit := do
  refreshLineNumbers
  refreshCursor
  if char != "" && char.toList.all Text.isAlphanumeric then refreshIssues

/-- Write suggestions for the word at the cursor to the console. The mark that the word is looked for
at is the place of the cursor as text. -/
def suggestHere : Act Unit := do
  let d := (← get).desk
  let mark := placeText d.buffer.cursorPlace
  let (names, word) := Completion.suggest d.lastWord d.buffer.beforeCursor mark
  adjust fun d => { d with lastWord := word }
  if !names.isEmpty then say ("Sugerencias: " ++ ", ".intercalate names) "info"

def find (o : Outside) : Act Unit := do
  match o.term with
  | none => pure ()
  | some term =>
    let b := (← get).desk.buffer
    let marks := (b.find term).map fun n =>
      let place := placeText (b.placeAt n)
      (place, s!"{place}+{term.length}c")
    modify fun s => { s with marks := s.marks ++ marks }

/-! ## Files -/

def titleFor (name : String) : String :=
  programName ++ " - " ++ name

def newFile (o : Outside) : Act Unit := do
  ask (.question "Nuevo archivo" "¿Crear un nuevo archivo? Los cambios no guardados se perderán.")
  if o.yes then
    adjust fun d => { d with
      buffer := .empty, file := none, title := titleFor "Sin título",
      status := "Nuevo archivo creado" }

def openFile (o : Outside) : Act Unit := do
  if o.openPath == "" then return
  match (← get).files.readText o.openPath with
  | .error e => ask (.problem "Error" ("No se pudo abrir el archivo:\n" ++ e.message))
  | .ok text =>
    adjust fun d => { d with
      buffer := d.buffer.replace text, file := some o.openPath,
      title := titleFor (Path.lastPart o.openPath),
      status := "Archivo abierto: " ++ o.openPath }
    refreshLineNumbers
    refreshIssues

def writeTo (path : String) : Act Bool := do
  let s ← get
  match s.files.writeText path s.desk.buffer.content with
  | .error e =>
    ask (.problem "Error" ("No se pudo guardar el archivo:\n" ++ e.message))
    return false
  | .ok fs =>
    set { s with files := fs }
    return true

def reportSaved (path : String) : Act Unit := do
  adjust fun d => { d with status := "Archivo guardado: " ++ path }
  say ("✓ Archivo guardado: " ++ path) "success"

def saveFileAs (o : Outside) : Act Unit := do
  if o.savePath == "" then return
  if ← writeTo o.savePath then
    adjust fun d => { d with
      file := some o.savePath, title := titleFor (Path.lastPart o.savePath) }
    reportSaved o.savePath

def Desk.file? (d : Desk) : Option String :=
  d.file.filter (· != "")

def saveFile (o : Outside) : Act Unit := do
  match (← get).desk.file? with
  | some path => if ← writeTo path then reportSaved path
  | none => saveFileAs o

/-! ## Running -/

def withSaved (o : Outside) (warning doing : String) (act : String → Run Unit) : Act Unit := do
  match (← get).desk.file? with
  | none => ask (.warning "Advertencia" warning)
  | some path =>
    saveFile o
    say s!"{doing} {path}..." "info"
    inConsole (act path)

def runCode (o : Outside) : Act Unit :=
  withSaved o "Guarda el archivo antes de ejecutarlo" "Ejecutando" (runFile o)

def transpileCode (o : Outside) : Act Unit :=
  withSaved o "Guarda el archivo antes de transpilarlo" "Transpilando" (transpileFile o)

def checkErrors : Act Unit := do
  let d := (← get).desk
  match d.file? with
  | some path => inConsole (checkFile path)
  | none =>
    refreshIssues
    match d.issues with
    | [] => say "✓ No se encontraron problemas" "success"
    | issues => say s!"Se encontraron {issues.length} problema(s)" "warning"

/-! ## Everything else -/

def showGuide (pieces : List Piece) : Act Unit :=
  modify fun s => { s with guide := s.guide ++ pieces }

def enterLine (o : Outside) (line : String) : Act Unit := do
  let c ← inConsole (Console.enter { (← get).desk.console with input := line } o)
  adjust fun d => { d with console := c }

def browse (move : Console → Option Failure × Console) : Act Unit :=
  modify fun s =>
    let (failure, console) := move s.desk.console
    { s with desk := { s.desk with console }, failure }

/-- What the user can do. -/
inductive Action where
  | set (text : String) (cursor : Nat)
  | key (char : String)
  | click
  | number
  | suggest
  | enter (line : String)
  | historyUp
  | historyDown
  | filterGuide (term category : String)
  | showGuide
  | newFile
  | openFile
  | saveFile
  | saveFileAs
  | run
  | transpile
  | check
  | checkNow
  | find
  | undo
  | redo
  | cut
  | copy
  | paste
  | about
  | close
  | idle
deriving Repr, DecidableEq

def act (o : Outside) : Action → Act Unit
  | .set text cursor => setText text cursor
  | .key char => keyReleased char
  | .click => refreshCursor
  | .number => refreshLineNumbers
  | .suggest => suggestHere
  | .enter line => enterLine o line
  | .historyUp => browse Console.up
  | .historyDown => browse Console.down
  | .filterGuide term category => showGuide (filteredGuide term category)
  | .showGuide => do
    showGuide fullGuide
    ask (.information "Documentación" "Consulta el panel de documentación a la derecha")
  | .newFile => newFile o
  | .openFile => openFile o
  | .saveFile => saveFile o
  | .saveFileAs => saveFileAs o
  | .run => runCode o
  | .transpile => transpileCode o
  | .check => checkErrors
  | .checkNow => refreshIssues
  | .find => find o
  | .undo => ask .undo
  | .redo => ask .redo
  | .cut => ask (.field "<<Cut>>")
  | .copy => ask (.field "<<Copy>>")
  | .paste => ask (.field "<<Paste>>")
  | .about =>
    ask (.information "Acerca de OPN Editor"
      ("OPN Editor v1.0\n\n" ++ "Editor oficial para el lenguaje OPN\n" ++
        "Desarrollado con Python y Tkinter\n\n" ++ "© 2025 OPN Language Project"))
  | .close => do
    ask (.question "Salir" "¿Estás seguro de que quieres salir?")
    if o.yes then ask .close
  | .idle => pure ()

def Session.step (s : Session) (o : Outside) (a : Action) : Session :=
  ((act o a).run { s with
    written := [], guide := [], marks := [], events := [], failure := none }).2

end ScriptWorkbench.Editor
