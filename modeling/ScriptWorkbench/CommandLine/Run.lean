/-
What the commands do.

Failures that a command expects are reported and give the code one; all others end the program.
-/
import ScriptWorkbench.CommandLine.Commands
import ScriptWorkbench.Compile
import ScriptWorkbench.Drawing
import ScriptWorkbench.Execution
import ScriptWorkbench.Package.Build
import ScriptWorkbench.Settings.Imports

namespace ScriptWorkbench.CommandLine

/-! ## The world of a command -/

/-- What running a command is told by its surroundings. -/
structure Surroundings where
  now : String
  input : String
  failure : Nat → Option Raised
  editorFailure : Option String

/-- What a command can change. -/
structure World where
  files : Files
  printed : String
  reported : String
  executions : List Execution
  drawing : Drawing.State
  dialogue : Bool

def World.ofFiles (fs : Files) : World :=
  ⟨fs, "", "", [], .initial, false⟩

/-- A failure that no command catches. -/
inductive Crash where
  | compile (error : CompileError)
  | raised (failure : Raised)
deriving Repr, DecidableEq

def Crash.message : Crash → String
  | .compile e => e.message
  | .raised r => r.message

def Crash.isExpected : Crash → Bool
  | .compile e => e.isMissing || e.isScriptError
  | .raised r => r.sort == .missingFile || r.sort == .script

/-- Steps of a command. -/
abbrev Doing (ε α : Type) := Action World ε α

def print {ε : Type} (line : String) : Doing ε Unit :=
  modify fun w => { w with printed := w.printed ++ line ++ "\n" }

def report {ε : Type} (line : String) : Doing ε Unit :=
  modify fun w => { w with reported := w.reported ++ line ++ "\n" }

def failWith {ε : Type} (line : String) : Doing ε Nat := do
  report line
  return 1

def onFiles {ε ε' α : Type} (f : ε' → ε) (a : Action Files ε' α) : Doing ε α :=
  Action.within World.files (fun fs w => { w with files := fs }) f a

/-! ## Running scripts -/

def readSource (s : Surroundings) (path : String) : Doing Crash String :=
  if path == "-" then return s.input
  else onFiles (.compile ∘ .file) (Files.reading (Path.ofString path).toString)

def compileSource (s : Surroundings) (path : String) : Doing Crash String := do
  let source ← readSource s path
  Action.ofExcept .compile (compile (← get).files .file source)

def writeOutput (path text : String) : Doing Crash Unit :=
  onFiles (.compile ∘ .file) (Files.writing (Path.ofString path).toString text)

/-- Do an operation on the drawing window, given what the window system answers. -/
def draw {ε : Type} (op : Drawing.Command × Drawing.Answers) : Doing ε (Option Drawing.Failure) := do
  let o := Drawing.step op.2 (← get).drawing op.1
  modify fun w => { w with drawing := o.state, printed := w.printed ++ o.printed }
  return o.failure

/-- Make the drawing window and execute code, and say how it ended. Before it ends, in whatever way, the code
does the operations `drawn` on the window. -/
def executeOpened (s : Surroundings) (opening : Drawing.Answers)
    (drawn : List (Drawing.Command × Drawing.Answers)) (code : String) : Doing Crash (Option Raised) := do
  match ← draw (.start, opening) with
  | some (.refused _ message) => return some ⟨.other, "TclError", message⟩
  | _ =>
    let number := (← get).executions.length
    modify fun w => { w with executions := w.executions ++ [⟨"<opn>", code⟩] }
    drawn.forM fun op => do let _ ← draw op
    return s.failure number

def closeDrawing (ending : Option Raised) : Doing Crash Unit := do
  if ending.isNone && (← get).drawing.hasWindow then
    print "[GFX TK] Iniciando bucle de eventos de Tkinter..."
  let _ ← draw (.quit, fun _ => none)
  if let some r := ending then throw (.raised r)

/-- Execute code with a drawing window, which is closed in any case. -/
def executeDrawing (s : Surroundings) (opening : Drawing.Answers)
    (drawn : List (Drawing.Command × Drawing.Answers)) (code : String) : Doing Crash Unit := do
  closeDrawing (← executeOpened s opening drawn code)

def execute (s : Surroundings) (code : String) : Doing Crash Unit :=
  executeDrawing s (fun _ => none) [] code

def expecting (a : Doing Crash Nat) : Doing Crash Nat :=
  tryCatch a fun e =>
    if e.isExpected then failWith ("Error: " ++ e.message) else throw e

def nonEmpty (text : Option String) : Option String :=
  text.filter (· != "")

def scriptSuffixes : List String := [".prisma", ".opn"]

def warnAboutName {ε : Type} (path : String) : Doing ε Unit := do
  let suffix := Text.lower (Path.ofString path).suffix
  if !scriptSuffixes.contains suffix then
    report (s!"Warning: File extension '{suffix}' is not standard. " ++
      "Use .prisma for code or .opn for data.")

def runScript (s : Surroundings) (v : Values) (path : String) : Doing Crash Nat :=
  expecting do
    warnAboutName path
    let code ← compileSource s path
    match nonEmpty (v.text? "output") with
    | some output => writeOutput output code
    | none => if !v.isGiven "no-run" then execute s code
    return 0

def transpileScript (s : Surroundings) (v : Values) : Doing Crash Nat :=
  expecting do
    let code ← compileSource s ((v.text? "source").getD "")
    match nonEmpty (v.text? "output") with
    | some output =>
      writeOutput output code
      print s!"Transpiled to: {output}"
    | none => modify fun w => { w with printed := w.printed ++ code }
    return 0

/-! ## Packages -/

def said (result : Json) (field : String) : String :=
  ((result.field? field).getD .null).display

def printSaid {ε : Type} (result : Json) (lines : List (String × String)) : Doing ε Unit := do
  for (label, field) in lines do
    print (s!"  {label}: " ++ said result field)

def making {α : Type} (a : Package.Making α) : Doing Settings.Failure α :=
  Action.within (fun w => ⟨w.files, w.printed, default⟩)
    (fun site w => { w with files := site.files, printed := site.printed }) id a

def catching (title : String) (a : Doing Settings.Failure Nat) : Doing Crash Nat := do
  let (r, w) := a.perform (← get)
  set w
  match r with
  | .ok n => return n
  | .error e => failWith s!"{title}: {e.message}"

def lookUp (path : String) : Doing Settings.Failure (Option Entry) := do
  Action.ofExcept .file ((← get).files.lookUp (Path.ofString path).toString)

def compilePackage (s : Surroundings) (v : Values) : Doing Crash Nat :=
  catching "Error during compilation" do
    let project := (v.text? "project_path").getD ""
    if (← lookUp project).isNone then
      failWith s!"Error: Project path does not exist: {project}"
    else
      let given (field default : String) : Json := .str ((v.text? field).getD default)
      let result ← making (Package.compileProject s.now (.ofString project)
        (.ofString ((v.text? "output").getD ""))
        (Package.maker (given "name" "") (given "version" "1.0.0") (given "description" "")
          (given "author" "")))
      print "✓ Compilation successful!"
      printSaid result [("Project", "project_path"), ("Output", "output_path"),
        ("Source files", "source_files"), ("Functions extracted", "functions"),
        ("Files generated", "files_generated")]
      return 0

def buildPackage (s : Surroundings) (v : Values) : Doing Crash Nat :=
  catching "Error during build" do
    let source := (v.text? "source").getD ""
    if (← lookUp source).isNone then
      failWith s!"Error: Source path does not exist: {source}"
    else
      let result ← making (Package.buildBeside s.now (.ofString source)
        (((v.text? "name").map Json.str).getD .null) (.str ((v.text? "version").getD "1.0.0")))
      print "[BUILD] Package created successfully!"
      printSaid result [("Name", "project_path"), ("Output", "output_path"),
        ("Functions", "functions"), ("Location", "output_path")]
      return 0

/-! ## Settings -/

def setting {α : Type} (a : Settings.Run α) : Doing Settings.Failure α :=
  onFiles id a

def shaped {α : Type} (r : Except Json.AccessError α) : Doing Settings.Failure α :=
  Action.ofExcept .shape r

def showPlaces (store : Settings.Store) : Doing Settings.Failure Unit := do
  print "OPN Configuration initialized at:"
  print ("  " ++ store.directory.toString)
  print "\nConfiguration files:"
  print ("  - " ++ store.packagesFile)
  print ("  - " ++ store.pathsFile)
  print ("  - " ++ store.settingsFile)

def showPackage (p : Json) : Doing Settings.Failure Unit := do
  let name ← shaped (p.member "name")
  let version ← shaped (p.member "version")
  let path ← shaped (p.member "path")
  print s!"  {name.display} v{version.display}: {path.display}"

def showPackages (store : Settings.Store) : Doing Settings.Failure Unit := do
  print "\n=== Packages ==="
  let packages ← setting store.packages
  if packages.truthy then
    for p in ← shaped packages.elements do showPackage p
  else print "  No packages registered"

def showList (title field : String) (paths : Json) : Doing Settings.Failure Unit := do
  let list ← shaped (paths.memberOr field (.arr []))
  let count ← shaped list.count
  print s!"  {title}: {count}"
  for p in ← shaped list.elements do print ("    - " ++ p.display)

def showPaths (store : Settings.Store) : Doing Settings.Failure Unit := do
  print "\n=== Paths ==="
  let paths ← setting store.paths
  showList "Source paths" "sourcePaths" paths
  showList "Package paths" "packagePaths" paths
  print ("  Output: " ++ (← shaped (paths.memberOr "outputPath" (.str "not set"))).display)

def showSettings (store : Settings.Store) : Doing Settings.Failure Unit := do
  print "\n=== Settings ==="
  for (key, value) in ← shaped (← setting store.settings).entries do
    if key != "lastUpdated" then print s!"  {key.value.display}: {value.display}"

def configure (s : Surroundings) (v : Values) : Doing Crash Nat :=
  catching "Config error" do
    let store ← setting (Settings.Store.openAt s.now .null)
    let path := (v.text? "path").getD ""
    match v.text? "config_action" with
    | some "init" => showPlaces store
    | some "show" =>
      showPackages store
      showPaths store
      showSettings store
    | some "add-source" =>
      setting (store.addSourcePath s.now (.str path))
      print s!"Added source path: {path}"
    | some "add-package" =>
      setting (store.addPackagePath s.now (.str path))
      print s!"Added package path: {path}"
    | _ => pure ()
    return 0

def fixPaths (s : Surroundings) (v : Values) : Doing Crash Nat :=
  catching "Error fixing paths" do
    let store ← setting (Settings.Store.openAt s.now .null)
    let project := Path.ofString ((v.text? "project_path").getD "")
    let files ← setting (store.locateProjectImports project)
    let total := Settings.placeCount files
    print "[FIX-PATHS] Scan complete"
    print s!"  Project: {project.toString}"
    print s!"  Files scanned: {files.length}"
    print s!"  Total corrections: {total}"
    if !files.isEmpty then
      print "\nCorrected imports:"
      for f in files do
        print ("  " ++ f.file)
        for p in f.places do print ("    - " ++ p.1)
    return 0

/-! ## All commands -/

def startDialogue : Doing Crash Nat := do
  modify fun w => { w with dialogue := true }
  return 0

def startEditor (s : Surroundings) : Doing Crash Nat :=
  match s.editorFailure with
  | none => return 0
  | some message =>
    failWith ("Error: Could not launch editor. Make sure tkinter is installed.\n" ++ message)

def Value.display : Option Value → String
  | some (.text s) => s
  | some .void => "[]"
  | _ => "None"

def carryOut (s : Surroundings) (v : Values) : Doing Crash Nat :=
  match v.text? "command" with
  | some "run" =>
    match v.text? "source" with
    | none => startDialogue
    | some path => runScript s v path
  | some "transpile" => transpileScript s v
  | some "editor" => startEditor s
  | some "compile" => compilePackage s v
  | some "build" => buildPackage s v
  | some "config" => configure s v
  | some "fix-paths" => fixPaths s v
  | some "package" => do
    let shown (field : String) := Value.display (v.lookup field)
    print ("Package manager: " ++ shown "action" ++ " " ++ shown "name")
    return 0
  | _ => startDialogue

/-- How a command ends. -/
inductive Outcome where
  | code (code : Nat)
  | refused (refusal : Refusal)
  | crashed (crash : Crash)
deriving Repr, DecidableEq

def runWords (s : Surroundings) (words : List String) (w : World) : Outcome × World :=
  match mainSpec.read words with
  | .error r => (.refused r, w)
  | .ok v =>
    match (carryOut s v).perform w with
    | (.ok n, w) => (.code n, w)
    | (.error e, w) => (.crashed e, w)

def runLine (s : Surroundings) (words : List String) (w : World) : Outcome × World :=
  runWords s (withRun words) w

end ScriptWorkbench.CommandLine
