/-
Reading the studio's configuration from three files. A file that cannot be used is reported.
-/
import ScriptWorkbench.Settings.Store

namespace ScriptWorkbench.Studio

/-- A language as a file has it, before its parts are checked. -/
structure LoadedLanguage where
  rules : List (Json × Json × Json)
  completions : Json
  command : Json
deriving Repr, Inhabited

/-- What was loaded from the files of a theme. -/
structure Configuration where
  palette : Json
  languages : List (Json.Name × LoadedLanguage)
  extensions : Json
  fallback : Json
  snippets : Json.Entries
deriving Repr, Inhabited

def Configuration.initial : Configuration :=
  ⟨.obj [], [("default", ⟨[], .arr [], .null⟩)], .obj [], .str "default", [(.str "default", .obj [])]⟩

def resourceIn (directory : Path) (file : String) : String :=
  if Text.startsWith file "/" then file else directory.toString ++ "/recursos/" ++ file

/-- Where a file of the configuration lies. It is looked for beside the program; a program that is not
packed goes by the current directory for a file that is not there. -/
def resourcePath (fs : Files) (packed : Bool) (file : String) : Except FileError String :=
  let beside := resourceIn ⟨"/", fs.cwd⟩ file
  if packed || fs.exists? beside then .ok beside
  else fs.workingPath.map fun here => resourceIn here file

def readResource (fs : Files) (path : String) : Except Settings.Failure Json :=
  match fs.readText path with
  | .error e => .error (.file e)
  | .ok text =>
    match Json.read text with
    | .error e => .error (.json text e)
    | .ok v => .ok v

/-! ## The theme -/

def readRule (v : Json) : Except Json.AccessError (Json × Json × Json) := do
  let pattern ← v.item 0
  let color ← v.item 1
  let style ← v.item 2
  pure (pattern, color, style)

def readLanguage (v : Json) : Except Json.AccessError LoadedLanguage := do
  let rules ← (← (← v.memberOr "rules" (.arr [])).elements).mapM readRule
  let completions ← v.memberOr "completions" (.arr [])
  let command ← v.memberOr "execution_command" .null
  pure ⟨rules, completions, command⟩

def readLanguages (v : Json) : Except Json.AccessError (List (Json.Name × LoadedLanguage)) := do
  let entries ← (← v.memberOr "languages" (.obj [])).entries
  entries.mapM fun (name, value) => do pure (name, ← readLanguage value)

def setLanguage (name : Json.Name) (value : LoadedLanguage) :
    List (Json.Name × LoadedLanguage) → List (Json.Name × LoadedLanguage)
  | [] => [(name, value)]
  | (n, v) :: rest => if n = name then (n, value) :: rest else (n, v) :: setLanguage name value rest

namespace Configuration

/-- A theme that cannot be used keeps its languages, but the new palette stays if it was found before the
fault. -/
def takeTheme (c : Configuration) (v : Json) : Configuration × Except Json.AccessError Unit :=
  match v.memberOr "palette" (.obj []) with
  | .error e => (c, .error e)
  | .ok palette =>
    let c := { c with palette }
    match readLanguages v with
    | .error e => (c, .error e)
    | .ok new =>
      ({ c with languages := new.foldl (fun l p => setLanguage p.1 p.2 l) c.languages }, .ok ())

def takeExtensions (c : Configuration) (v : Json) : Configuration × Except Json.AccessError Unit :=
  match v.memberOr "mappings" (.obj []), v.memberOr "default_id" (.str "default") with
  | .ok extensions, .ok fallback => ({ c with extensions, fallback }, .ok ())
  | .error e, _ | _, .error e => (c, .error e)

/-- Extensions that cannot be used are all forgotten. -/
def withoutExtensions (c : Configuration) : Configuration :=
  { c with extensions := .obj [], fallback := .str "default" }

/-- Snippets that cannot be used keep what was set before the fault. -/
def takeSnippets (c : Configuration) (v : Json) : Configuration × Except Json.AccessError Unit :=
  let (snippets, r) := Json.update c.snippets v
  ({ c with snippets }, r)

/-! ## Loading -/

def takeFile (fs : Files) (path : String)
    (take : Configuration → Json → Configuration × Except Json.AccessError Unit)
    (c : Configuration) : Configuration × Except Settings.Failure Unit :=
  match readResource fs path with
  | .error e => (c, .error e)
  | .ok v =>
    let (c, r) := take c v
    (c, r.mapError .shape)

def report (path read missing empty broken : String) : Except Settings.Failure Unit → String
  | .ok () => s!"Configuración de {read} desde: {path}\n"
  | .error (.file (.notFound _)) => s!"ERROR: Archivo de {missing} no encontrado en {path}. Usando {empty}.\n"
  | .error e => "ERROR al cargar " ++ broken ++ ": " ++ e.message ++ "\n"

def loadTheme (fs : Files) (path : String) (c : Configuration) : Configuration × String :=
  let (c, r) := takeFile fs path takeTheme c
  (c, report path "tema cargada" "tema" "configuración vacía" "el tema JSON" r)

def loadExtensions (fs : Files) (path : String) (c : Configuration) : Configuration × String :=
  let (c, r) := takeFile fs path takeExtensions c
  let c := match r with
    | .ok () => c
    | .error _ => c.withoutExtensions
  (c, report path "extensiones cargada" "extensiones" "configuración vacía" "el JSON de extensiones" r)

def loadSnippets (fs : Files) (path : String) (c : Configuration) : Configuration × String :=
  let (c, r) := takeFile fs path takeSnippets c
  (c, report path "snippets cargada" "snippets" "snippets vacíos" "snippets JSON" r)

end Configuration

end ScriptWorkbench.Studio
