/-
A session in the studio.

A session is a window over a file system. What an action asks of the outside is recorded as events; the
answers are given with the action. Failures to read or write a file are told in a dialog and end nothing.
-/
import ScriptWorkbench.Files.Action
import ScriptWorkbench.Studio.Command
import ScriptWorkbench.Studio.Minimap
import ScriptWorkbench.Studio.Window

namespace ScriptWorkbench.Studio

/-! ## The outside -/

/-- The answer to the question what to do with a changed text. -/
inductive Reply where
  | save
  | discard
  | cancel
deriving Repr, DecidableEq, Inhabited

/-- What the user and the surroundings answer. -/
structure Outside where
  openPath : String
  savePath : String
  reply : Reply
  startError : Option String
  interpreter : String
  time : String
deriving Repr, DecidableEq, Inhabited

/-- What the user is shown or the surroundings are asked for. -/
inductive Event where
  | problem (title text : String)
  | information (title text : String)
  | question (title text : String)
  | chooseFile (directory : String)
  | chooseTarget (name filters filter : String)
  | enterDirectory (path : String)
  | start (command : Command)
  | kill
  | accept
  | refuse
deriving Repr, DecidableEq

/-- The window, the files, and what was asked and printed so far. -/
structure Session where
  window : Window
  files : Files
  events : List Event
  printed : String
deriving Inhabited

variable [Toolkit]

def Session.ofFiles (t : Theme) (fs : Files) : Session :=
  ⟨.initial t, fs, [], ""⟩

/-- Something that is done in a session. -/
abbrev Act := StateM Session

def adjust (f : Window → Window) : Act Unit :=
  modify fun s => { s with window := f s.window }

def ask (e : Event) : Act Unit :=
  modify fun s => { s with events := s.events ++ [e] }

def write (path : String) (text : List Char) : Act (Except FileError Unit) := do
  let s ← get
  match s.files.writeText path (String.ofList text) with
  | .ok fs =>
    set { s with files := fs }
    return .ok ()
  | .error e => return .error e

/-! ## Opening -/

def openPath (t : Theme) (path : String) : Act Bool := do
  let s ← get
  match s.window.paths.placeOf? path with
  | some place =>
    adjust (·.select place)
    return true
  | none =>
    match s.files.content path with
    | .error e =>
      ask (.problem "Error de Apertura" ("No se pudo abrir el archivo:\n" ++ e.message))
      return false
    | .ok content =>
      adjust (·.addTab ((CodeView.ofPath t (some path)).setText content.readLenient)
        (Path.lastPart path) (some path))
      return true

def openListed (t : Theme) (path : String) : Act Unit := do
  if (← get).files.isDirectory path then return
  let _ ← openPath t path

def openFile (t : Theme) (o : Outside) : Act Unit := do
  let w := (← get).window
  ask (.chooseFile (w.root.getD ""))
  if o.openPath ≠ "" then
    match w.paths.placeOf? o.openPath with
    | some place =>
      ask (.information "Ya Abierto"
        ("El archivo '" ++ Path.lastPart o.openPath ++ "' ya está abierto."))
      adjust (·.select place)
    | none =>
      let _ ← openPath t o.openPath

def openFolder (o : Outside) : Act Unit :=
  if o.openPath = "" then pure () else adjust (·.openFolder o.openPath)

/-! ## Saving -/

def saveTo (place : Nat) (path : String) : Act Unit := do
  let w := (← get).window
  match w.currentTab? with
  | none => return
  | some tab =>
    match ← write path tab.view.contents with
    | .ok () => adjust fun w => w.setTitle place (withoutMark (w.titleAt place))
    | .error e =>
      ask (.problem "Error al Guardar" ("No se pudo guardar el archivo:\n" ++ e.message))

def scriptFilter : String := "Archivos Prisma (*.prisma)"

def otherFilters : List String :=
  ["Archivos Python (*.py)", "Archivos de JavaScript (*.js *.jsx *.ts *.tsx)",
   "Archivos de Texto (*.txt)", "Todos los Archivos (*)"]

def scriptName (title : String) : String :=
  let extension := Path.extension title
  let stem := String.ofList (title.toList.take (title.length - extension.length))
  if stem = untitled ∨ Text.lower extension ≠ ".prisma" then
    Text.replaceAll stem untitled "untitled" ++ ".prisma"
  else title

def targetDialog (language title : String) : Event :=
  let name := String.ofList (Text.dropAround (· == '*') title.toList)
  if language = CodeView.checkedLanguage then
    .chooseTarget (scriptName name) (";;".intercalate (scriptFilter :: otherFilters)) scriptFilter
  else .chooseTarget name (";;".intercalate otherFilters) ""

/-- Save the text in front to a file chosen in a dialog. The tab takes the name and the path of that
file, also when it could not be written. -/
def saveFileAs (t : Theme) (o : Outside) : Act Unit := do
  let w := (← get).window
  match w.current, w.currentTab? with
  | some place, some tab =>
    let language := match w.paths.at? place with
      | none => tab.view.language
      | some path => t.languageOf (some path)
    ask (targetDialog language tab.title)
    if o.savePath ≠ "" then
      saveTo place o.savePath
      adjust (·.adopt t place o.savePath)
  | _, _ => return

def saveFile (t : Theme) (o : Outside) : Act Unit := do
  let w := (← get).window
  match w.current with
  | none => return
  | some place =>
    match w.paths.at? place with
    | some path => saveTo place path
    | none => saveFileAs t o

def autosaveTab (place : Nat) (tab : Tab) : Act Unit := do
  match (← get).window.paths.at? place with
  | none => return
  | some path =>
    match ← write path tab.view.contents with
    | .ok () => return
    | .error e =>
      let line := s!"Error en auto-guardado de {path}: " ++ e.message ++ "\n"
      modify fun s => { s with printed := s.printed ++ line }

def autosaveTabs (place : Nat) : List Tab → Act Unit
  | [] => return
  | tab :: rest => do
    autosaveTab place tab
    autosaveTabs (place + 1) rest

def autosave (o : Outside) : Act Unit := do
  autosaveTabs 0 (← get).window.tabs
  adjust (·.say ("[" ++ o.time ++ "] Auto-guardado completado."))

/-! ## Closing -/

def saveQuestion : String := "Guardar Cambios"

/-- Save the text in front if the answer says so. The result tells whether to go on: not when the
answer is to stop, nor when the tab at a place still has its mark after saving. -/
def settle (t : Theme) (o : Outside) (place : Nat) : Act Bool :=
  match o.reply with
  | .cancel => return false
  | .discard => return true
  | .save => do
    saveFile t o
    return !isMarked ((← get).window.titleAt place)

def closeTab (t : Theme) (o : Outside) (place : Nat) : Act Unit := do
  let go ← if isMarked ((← get).window.titleAt place) then do
      ask (.question saveQuestion
        "El archivo tiene cambios sin guardar. ¿Deseas guardarlos antes de cerrar?")
      if o.reply = .save then adjust (·.select place)
      settle t o place
    else pure true
  if go then adjust (·.dropTab place)

/-- Ask about the changed texts among several tabs, with the answers for each place. The result tells
whether all was settled. -/
def settleAll (t : Theme) (o : Nat → Outside) : List Nat → Act Bool
  | [] => return true
  | place :: rest => do
    let title := (← get).window.titleAt place
    if isMarked title then
      adjust (·.select place)
      ask (.question saveQuestion ("El archivo '" ++ withoutMark title ++
        "' tiene cambios sin guardar. ¿Deseas guardarlos?"))
      if ← settle t (o place) place then settleAll t o rest else return false
    else settleAll t o rest

def quit (t : Theme) (o : Nat → Outside) : Act Unit := do
  let places := List.range (← get).window.tabs.length
  if ← settleAll t o places then ask .accept else ask .refuse

/-! ## Running -/

def decline (reason : String) : Act Unit :=
  adjust fun w => (w.say ("\n" ++ reason)).showConsole true

/-- The directory that a program is run in: that of the interpreter's sources two levels above the
file, if it exists, or else that of the file. -/
def runDirectory (fs : Files) (file : String) : String :=
  let directory := Path.directoryPart file
  let sources := Path.beside directory "../../prisma-lang/src"
  if fs.exists? sources then (Path.absolute fs.cwd sources).toString else directory

def start (o : Outside) (file : String) (command : Command) : Act Unit := do
  let s ← get
  if s.window.running then ask .kill
  ask (.enterDirectory (runDirectory s.files file))
  ask (.start command)
  match o.startError with
  | none => adjust fun w => { w with running := true }
  | some reason => adjust fun w =>
    { w.say ("\n[ERROR DE INICIO] No se pudo iniciar el proceso: " ++ reason) with running := false }

def saveBeforeRun (t : Theme) (o : Outside) : Act Bool := do
  let w := (← get).window
  match w.current with
  | none => return true
  | some place =>
    if isMarked (w.titleAt place) then
      saveFile t o
      return !isMarked ((← get).window.titleAt place)
    else return true

def runFile (t : Theme) (o : Outside) : Act Unit := do
  match (← get).window.currentPath? with
  | none => decline "[ERROR] No hay archivo abierto para ejecutar."
  | some file =>
    let id := t.languageOf (some file)
    match ((t.languages.lookup id).bind (·.command)).bind
        fun template => (Command.ofTemplate o.interpreter file template).map (template, ·) with
    | none => decline s!"[ERROR] No hay un comando de ejecución configurado para '{id}'."
    | some (template, command) =>
      if ← saveBeforeRun t o then
        let line := Command.fill o.interpreter file template
        adjust fun w => { w with console := s!"--- Ejecutando: {line} ---\n" }.showConsole true
        start o file command
      else
        decline "[ADVERTENCIA] Guarda los cambios antes de ejecutar o el guardado fue cancelado."

def writtenText (c : Content) : String :=
  String.ofList (Text.dropEndWhile Text.isBlank c.chars)

def showOutput (c : Content) (w : Window) : Window :=
  if w.running then w.say (writtenText c) else w

def showErrors (c : Content) (w : Window) : Window :=
  if w.running then w.say ("\n[ERROR DE EJECUCIÓN]\n" ++ writtenText c) else w

def showEnd (code : Int) (normal : Bool) (w : Window) : Window :=
  let how := if normal then "FINALIZADO NORMALMENTE" else "FINALIZADO CON ERROR DE SALIDA"
  { w.say s!"\n--- Proceso {how} (Código: {code}) ---" with running := false }

def failureText (name : String) : Option String :=
  match name with
  | "UnknownError" => none
  | "FailedToStart" =>
    some "No se pudo iniciar el programa (ejecutable no encontrado o permisos)."
  | "Crashed" => some "El programa falló durante la ejecución."
  | "Timedout" => some "El proceso agotó el tiempo de espera."
  | name => some ("Error QProcess desconocido: " ++ name)

def showFailure (name : String) (w : Window) : Window :=
  let w := match failureText name with
    | some text => w.say ("\n[ERROR FATAL DE PROCESO] " ++ text)
    | none => w
  { w with running := false }

/-! ## Actions -/

/-- What the user can do, and the automatic save. -/
inductive Action where
  | newFile
  | openFile
  | openPath (path : String)
  | openListed (path : String)
  | openFolder
  | saveFile
  | saveFileAs
  | autosave
  | runFile
  | currentPath
  | edit (place : Int) (text : String)
  | select (place : Int)
  | close (place : Int)
  | quit
  | click (panel : Panel)
  | showSide (view : String)
  | setSizes (side console : List Int)
  | showMinimap (shown : Bool)
  | showNumbers (shown : Bool)
  | showConsole (shown : Bool)
  | scroll (textRange value range : Int)
  | clickMinimap (y : Bool × Nat × Nat) (textRange : Int)
  | say (text : String)
  | programOutput (content : Content)
  | programErrors (content : Content)
  | programEnd (code : Int) (normal : Bool)
  | programFailure (name : String)
  | find
deriving Repr

/-- What an action gives back. -/
inductive Answer where
  | nothing
  | truth (value : Bool)
  | path (value : Option String)
  | number (value : Int)
deriving Repr, DecidableEq

def atPlace (place : Int) (f : Nat → Act Unit) : Act Unit :=
  if 0 ≤ place then f place.toNat else pure ()

def performQuiet (t : Theme) (o : Outside) : Action → Act Unit
  | .newFile => adjust (·.newFile t)
  | .openFile => openFile t o
  | .openListed path => openListed t path
  | .openFolder => openFolder o
  | .saveFile => saveFile t o
  | .saveFileAs => saveFileAs t o
  | .autosave => autosave o
  | .runFile => runFile t o
  | .edit place text => atPlace place fun n => adjust (·.edit n text)
  | .select place => atPlace place fun n => adjust (·.select n)
  | .close place => atPlace place (closeTab t o)
  | .quit => quit t fun _ => o
  | .click panel => adjust (·.click panel)
  | .showSide view => adjust (·.showSide view)
  | .setSizes side console => adjust fun w => { w with sideSizes := side, consoleSizes := console }
  | .showMinimap shown => adjust (·.showMinimap shown)
  | .showNumbers shown => adjust (·.showNumbers shown)
  | .showConsole shown => adjust (·.showConsole shown)
  | .say text => adjust (·.say text)
  | .programOutput content => adjust (showOutput content)
  | .programErrors content => adjust (showErrors content)
  | .programEnd code normal => adjust (showEnd code normal)
  | .programFailure name => adjust (showFailure name)
  | _ => pure ()

def perform (t : Theme) (o : Outside) (a : Action) : Act Answer := do
  match a with
  | .openPath path => return .truth (← openPath t path)
  | .currentPath => return .path (← get).window.currentPath?
  | .scroll textRange value range => return .number (Minimap.follow textRange value range)
  | .clickMinimap y textRange => return .number (Minimap.jump y textRange)
  | a =>
    performQuiet t o a
    return .nothing

def Session.step (t : Theme) (o : Outside) (a : Action) (s : Session) : Answer × Session :=
  (perform t o a).run { s with events := [], printed := "" }

end ScriptWorkbench.Studio
