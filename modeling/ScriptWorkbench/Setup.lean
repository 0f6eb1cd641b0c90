/-
Checking that the studio is set up.

`verify` looks for the files and the libraries of the studio, reads its configuration, and tells what it knows
about the scripting language. `validate` only reads the files of the configuration.
-/
import ScriptWorkbench.Studio.Configuration

namespace ScriptWorkbench.Setup

/-! ## Logs -/

/-- What was printed so far, and whether nothing was wrong. -/
structure Log where
  lines : List String
  sound : Bool
deriving Repr, DecidableEq, Inhabited

/-- A check of the installation. -/
abbrev Check (α : Type) := Action Log Settings.Failure α

def say (line : String) : Check Unit :=
  modify fun l => { l with lines := l.lines ++ [line] }

def complain (line : String) : Check Unit := do
  say line
  modify fun l => { l with sound := false }

def judge (good : Bool) (well faulty : String) : Check Unit :=
  if good then say well else complain faulty

def Log.printed (l : Log) : String :=
  String.join (l.lines.map (· ++ "\n"))

def Log.code (l : Log) : Nat := if l.sound then 0 else 1

def run (c : Check Unit) : Log × Option Settings.Failure :=
  match Action.perform c ⟨[], true⟩ with
  | (.ok (), l) => (l, none)
  | (.error e, l) => (l, some e)

/-! ## Parts of the studio -/

def padded (width : Nat) (s : String) : String :=
  s ++ String.ofList (List.replicate (width - s.length) ' ')

def ruler : String := String.ofList (List.replicate 60 '=')

def neededFiles : List (String × String) :=
  [("VSeditor.py", "Editor principal"),
   ("recursos/colores.json", "Configuracion de colores"),
   ("recursos/extensions.json", "Mapeo de extensiones"),
   ("test_example.opn", "Archivo de prueba"),
   ("FEATURES.md", "Guia de caracteristicas"),
   ("README_EDITOR.md", "Manual de usuario")]

def neededLibraries : List (String × String) :=
  [("PyQt6", "Editor GUI"), ("json", "Configuracion"), ("re", "Resaltado sintaxis")]

def themeFile : String := "recursos/colores.json"

def extensionsFile : String := "recursos/extensions.json"

def snippetsFile : String := "recursos/snippets.json"

def placeOf (directory file : String) : String := directory ++ "/" ++ file

/-! ## Verifying -/

def checkFiles (fs : Files) (directory : String) : Check Unit :=
  neededFiles.forM fun (file, use) =>
    judge (fs.exists? (placeOf directory file)) ("[OK]  " ++ padded 30 file ++ s!" ({use})")
      ("[FAIL] " ++ padded 30 file ++ " FALTANTE")

def checkLibraries (missing : List String) : Check Unit :=
  neededLibraries.forM fun (name, use) =>
    judge (!missing.contains name) ("[OK]  " ++ padded 20 name ++ s!" ({use})")
      ("[FAIL] " ++ padded 20 name ++ s!" NO INSTALADO - pip install {name}")

/-- Read a file of the configuration. A text that is no JSON value is reported; any other failure
breaks the check off. -/
def checkJson (fs : Files) (directory file : String) : Check Unit := do
  let path := placeOf directory file
  if fs.exists? path then
    match Studio.readResource fs path with
    | .ok _ => say ("[OK]  " ++ padded 30 file ++ " JSON valido")
    | .error (.json text (.fault what left)) =>
      let reason := Json.ReadError.message text.toList (.fault what left)
      complain ("[FAIL] " ++ padded 30 file ++ " ERROR JSON: " ++ reason)
    | .error e => throw e
  else complain ("[FAIL] " ++ padded 30 file ++ " NO ENCONTRADO")

def shaped {α : Type} (r : Except Json.AccessError α) : Check α :=
  Action.ofExcept .shape r

def hasParts (language : Json) (key : String) : Check Bool := do
  if ← shaped (language.holds key) then
    return 0 < (← shaped (← shaped (language.member key)).count)
  else return false

def partCount (language : Json) (key : String) : Check Nat := do
  shaped (← shaped (language.memberOr key (.arr []))).count

def status (good : Bool) : String := if good then "[OK]  " else "[FAIL]  "

def describe (language : Json) : Check Unit := do
  let hasRules ← hasParts language "rules"
  let hasCompletions ← hasParts language "completions"
  let hasCommand ← shaped (language.holds "execution_command")
  let rules ← partCount language "rules"
  say (status hasRules ++ s!"Reglas de sintaxis: {rules} reglas")
  let completions ← partCount language "completions"
  say (status hasCompletions ++ s!"Autocompletado: {completions} palabras")
  let command ← shaped (language.memberOr "execution_command" (.str "NO"))
  say (status hasCommand ++ "Comando ejecucion: " ++ command.display)
  if hasCommand then
    say ("     -> Comando: " ++ (← shaped (← shaped (language.member "execution_command")).text))

def scriptLanguage? (theme : Json) : Check (Option Json) := do
  if !(← shaped (theme.holds "languages")) then return none
  let languages ← shaped (theme.member "languages")
  if !(← shaped (languages.holds "opn")) then return none
  return some (← shaped (languages.member "opn"))

def checkTheme (fs : Files) (path : String) : Check Unit := do
  let theme ← Action.ofExcept id (Studio.readResource fs path)
  match ← scriptLanguage? theme with
  | some language => describe language
  | none => complain "[FAIL] Configuracion OPN no encontrada"

def checkScript (fs : Files) (directory : String) : Check Unit := do
  let path := placeOf directory themeFile
  if fs.exists? path then
    try checkTheme fs path
    catch e => complain ("[FAIL] Error leyendo colores.json: " ++ e.message)

def conclude : Check Unit := do
  if (← get).sound then
    say "[SUCCESS] TODO VERIFICADO - LISTO PARA USAR"
    say "\nPara iniciar el editor:"
    say "  python vscode/VSeditor.py"
    say "\nO en Windows PowerShell:"
    say "  python .\\vscode\\VSeditor.py"
    say ruler
  else say "[ERROR] FALTAN CONFIGURACIONES - Ver errores arriba"

def verify (fs : Files) (directory : String) (missing : List String) : Check Unit := do
  say ruler
  say "VERIFICACION DEL EDITOR OPN"
  say ruler
  say "\n[FILES] Verificando archivos..."
  checkFiles fs directory
  say "\n[DEPS] Verificando dependencias..."
  checkLibraries missing
  say "\n[JSON] Validando archivos JSON..."
  checkJson fs directory themeFile
  checkJson fs directory extensionsFile
  say "\n[OPN] Verificando configuracion OPN..."
  checkScript fs directory
  say ("\n" ++ ruler)
  conclude

/-! ## Validating -/

def configurationFiles : List (String × String) :=
  [(snippetsFile, "Snippets"), (themeFile, "Colores"), (extensionsFile, "Extensiones")]

def validate (fs : Files) : Check Unit := do
  configurationFiles.forM fun (file, name) =>
    match Studio.readResource fs file with
    | .ok _ => say s!"[OK] {name}: {file}"
    | .error e => complain (s!"[ERROR] {name}: " ++ e.message)
  if (← get).sound then say "\n[SUCCESS] Todos los archivos JSON son validos"
  else say "\n[FAILED] Algunos archivos JSON tienen errores"

end ScriptWorkbench.Setup
