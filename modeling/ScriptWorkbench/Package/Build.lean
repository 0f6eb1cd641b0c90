/-
Building a package from a project.

A build writes the joined text of the source files, the list of functions with figures about it, and a
description of the package.
-/
import ScriptWorkbench.Files.Glob
import ScriptWorkbench.Package.Search
import ScriptWorkbench.Package.Signature
import ScriptWorkbench.Settings.Store

namespace ScriptWorkbench.Package

/-! ## Gathering -/

/-- A project while it is built: what was found, read and listed so far. -/
structure Build where
  project : Path
  sources : List Path
  code : String
  functions : List Signature
deriving Repr, Inhabited

def Build.ofProject (project : Path) : Build :=
  ⟨project, [], "", []⟩

def sourceSuffixes : List String := [".prisma", ".opn"]

/-- One list of names comes before another, or is the same: the first names that differ decide, and a
list comes before those that it begins. -/
def namesBefore : List String → List String → Bool
  | [], _ => true
  | _ :: _, [] => false
  | a :: as, b :: bs => if a = b then namesBefore as bs else a ≤ b

/-- The source files are gathered in the order of their paths. -/
def sortPaths (paths : List Path) : List Path :=
  paths.mergeSort fun p q => namesBefore p.components q.components

def candidates (fs : Files) (project : Path) (suffixes : List String) : Glob.Found :=
  .each (fun s => fs.glob project ("*" ++ s)) suffixes

def sourceFiles (paths : List Path) : List Path :=
  sortPaths (paths.filter (·.name != indexName))

def suffixesOf : Json → Except Json.AccessError (List String)
  | .null => .ok sourceSuffixes
  | v => v.elements.map fun l => l.map (·.display)

def sourceHeader (p : Path) : String :=
  s!"\n// === From: {p.name} ===\n"

def sourcePieces (fs : Files) (p : Path) : Except FileError (List String) :=
  (fs.readText p.toString).map fun text =>
    if Text.trim text == "" then [] else [sourceHeader p, text]

def unreadableWarning (p : Path) (e : FileError) : String :=
  s!"Warning: Could not read {p.toString}: {e.message}\n"

/-- The texts of the source files, joined under header comments. -/
def consolidate (fs : Files) (sources : List Path) : String × String :=
  let results := sources.map fun p => (p, sourcePieces fs p)
  ("\n".intercalate (results.flatMap fun r => r.2.toOption.getD []),
   String.join (results.map fun r =>
    match r.2 with
    | .ok _ => ""
    | .error e => unreadableWarning r.1 e))

/-! ## The files of a package -/

def indexText (now : String) (b : Build) : String :=
  s!"// Auto-generated index.prisma\n// Generated: {now}\n// Source files: {b.sources.length}\n\n" ++
    b.code

/-- The quotient of two numbers to two places, a half going to the even neighbour. The quotient is
rounded to a floating-point number first. -/
def average (total count : Nat) : Number.Binary64 :=
  match Number.Binary64.ofRatio false total (max 1 count) with
  | .finite _ m e =>
    let (num, den) := Number.Binary64.ratio m e
    .ofRatio false (Number.divRoundEven (100 * num) den) 100
  | x => x

def parameterCount (functions : List Signature) : Nat :=
  functions.foldl (fun n f => n + f.parameters.length) 0

def statistics (b : Build) : Json :=
  .obj [("sourceFiles", .int b.sources.length), ("totalFunctions", .int b.functions.length),
    ("categories", .int (if b.functions.isEmpty then 0 else 1)),
    ("averageParametersPerFunction",
      .real (average (parameterCount b.functions) b.functions.length))]

def Parameter.json (p : Parameter) : Json :=
  .obj [("name", .str p.name), ("type", .str p.type)]

def Signature.json (s : Signature) : Json :=
  .obj [("name", .str s.name), ("parameters", .arr (s.parameters.map Parameter.json)),
    ("description", .str s.description), ("category", .str Signature.category),
    ("returnType", .str Signature.resultType)]

def functionNames (functions : List Signature) : Json :=
  .arr (functions.map fun f => .str f.name)

def editorConfiguration : Json :=
  .obj [
    ("layers", .obj [("core", .str "Core functions provided by the package"),
      ("utils", .str "Utility functions for common tasks"),
      ("effects", .str "Visual effects and animations"),
      ("shapes", .str "Shape drawing and rendering"),
      ("colors", .str "Color definitions and manipulation"),
      ("advanced", .str "Advanced functionality")]),
    ("autoCompletion", .obj [("enabled", .bool true), ("provider", .str "opn"),
      ("triggerCharacters", .arr [.str ".", .str "("])]),
    ("ide", .obj [("vscode", .bool true), ("vseditor", .bool true), ("snippets", .bool true)])]

def functionsDocument (now : String) (b : Build) : Json :=
  .obj [
    ("metadata", .obj [("version", .str "1.0.0"), ("format", .str "opn-functions-doc-v1"),
      ("generatedAt", .str now), ("generatedBy", .str "OPN Compiler")]),
    ("statistics", statistics b),
    ("configuration", editorConfiguration),
    ("categories", .obj (if b.functions.isEmpty then []
      else [(Signature.category, functionNames b.functions)])),
    ("functions", .arr (b.functions.map Signature.json)),
    ("sourceFiles", .arr (b.sources.map fun p => .str p.name))]

def description (given : Json) (functions : List Signature) : Except Json.AccessError Json := do
  return .obj [("name", ← given.memberOr "name" (.str "unknown")),
    ("version", ← given.memberOr "version" (.str "1.0.0")),
    ("description", ← given.memberOr "description" (.str "")),
    ("author", ← given.memberOr "author" (.str "")),
    ("main", .str indexName), ("functions", functionNames functions)]

def descriptionName (given : Json) : Except Json.AccessError String :=
  (given.memberOr "name" (.str "package")).map fun n => n.display ++ ".opn"

/-! ## Building -/

/-- The files, what was printed, and the project being built. -/
structure Site where
  files : Files
  printed : String
  build : Build
deriving Inhabited

/-- A step of a build. -/
abbrev Making (α : Type) := Action Site Settings.Failure α

def withFiles {α : Type} (a : Settings.Run α) : Making α :=
  Action.within Site.files (fun fs s => { s with files := fs }) id a

def produce (path : Path) (text : String) : Making Unit :=
  withFiles (Settings.onFiles (Files.writing path.toString text))

def record (path : Path) (v : Json) : Making Unit :=
  withFiles (Settings.Store.save path.toString v)

def gathering (f : Build → Build) : Making Unit :=
  modify fun site => { site with build := f site.build }

def shaped {α : Type} (r : Except Json.AccessError α) : Making α :=
  withFiles (Settings.shaped r)

/-- Look for the source files with the ends that a value lists. When the search fails, the paths that
were found before stay as they are. -/
def discover (ends : Json) : Making (List Path) := do
  gathering ({ · with sources := [] })
  let suffixes ← shaped (suffixesOf ends)
  let site ← get
  let found := candidates site.files site.build.project suffixes
  match found.failure with
  | some e =>
    gathering ({ · with sources := found.paths })
    throw (.file e)
  | none =>
    let sources := sourceFiles found.paths
    gathering ({ · with sources })
    return sources

def joinSources : Making String := do
  let site ← get
  let (code, warnings) := consolidate site.files site.build.sources
  set { site with printed := site.printed ++ warnings, build := { site.build with code } }
  return code

/-- The signatures of the functions in the joined text are listed. -/
def listFunctions : Making (List Signature) := do
  let functions := documentedSignatures (← get).build.code
  gathering ({ · with functions })
  return functions

def report (now : String) (output : Path) (b : Build) : Json :=
  .obj [("success", .bool true), ("project_path", .str b.project.toString),
    ("output_path", .str output.toString), ("source_files", .int b.sources.length),
    ("functions", .int b.functions.length), ("files_generated", .int 3), ("timestamp", .str now)]

def writeIndex (now : String) (path : Path) : Making String := do
  let text := indexText now (← get).build
  produce path text
  return text

def writeFunctions (now : String) (path : Path) : Making Json := do
  let b := (← get).build
  record path (functionsDocument now b)
  return statistics b

def writeDescription (path : Path) (given : Json) : Making Json := do
  let described ← shaped (description given (← get).build.functions)
  record path described
  return described

def compileTo (now : String) (output : Path) (given : Json) : Making Json := do
  withFiles (Settings.onFiles (Files.making output))
  let _ ← discover .null
  let _ ← joinSources
  let _ ← listFunctions
  let _ ← writeIndex now (output.child indexName)
  let _ ← writeFunctions now (output.child "functions.json")
  let _ ← writeDescription (output.child (← shaped (descriptionName given))) given
  return report now output (← get).build

def compileProject (now : String) (project output : Path) (given : Json) : Making Json := do
  let site ← get
  let (r, after) := (compileTo now output given).perform { site with build := .ofProject project }
  set { after with build := site.build }
  Action.ofExcept id r

def maker (name version description author : Json) : Json :=
  .obj [("name", name), ("version", version), ("description", description), ("author", author)]

/-- Build a project beside itself and add the package to the store in the home directory. Unless it
is given, the name is that of the project's directory, or of its file without the suffix. -/
def buildBeside (now : String) (source : Path) (name version : Json) : Making Json := do
  let name ← match name with
    | .null => do
      let entry ← Action.ofExcept .file ((← get).files.lookUp source.toString)
      pure (Json.str (if entry == some .directory then source.name else source.stem))
    | given => pure given
  let output := source.parent.child (name.display ++ "_build")
  let result ← compileProject now source output
    (maker name version (.str ("Auto-compiled package: " ++ name.display))
      (.str "OPN Build System"))
  let store ← withFiles (Settings.Store.openAt now .null)
  let _ ← withFiles (store.addPackage now (.obj [("name", name), ("version", version),
    ("path", .str output.toString), ("main", .str indexName)]))
  return result

/-! ## Builds by named arguments -/

def projectParameters : Json.Parameters :=
  ⟨"compile_project", ["project_path", "output_dir", "name", "version", "description", "author"], 3,
    false⟩

def besideParameters : Json.Parameters :=
  ⟨"quick_compile", ["source_path", "package_name", "version"], 1, false⟩

def argumentOr (given : Json) (name default : String) : Json :=
  (given.field? name).getD (.str default)

def argument (given : Json) (name : String) : Json :=
  (given.field? name).getD .null

def argumentNames (given : Json) : List String :=
  (given.fields?.getD []).map (·.1.value.display)

def compileNamed (now : String) (given : Json) : Making Json := do
  shaped (projectParameters.checkNamed (argumentNames given))
  let project ← shaped (argument given "project_path").path
  let output ← shaped (argument given "output_dir").path
  compileProject now project output
    (maker (argument given "name") (argumentOr given "version" "1.0.0")
      (argumentOr given "description" "") (argumentOr given "author" ""))

def besideNamed (now : String) (given : Json) : Making Json := do
  shaped (besideParameters.checkNamed (argumentNames given))
  let source ← shaped (argument given "source_path").path
  buildBeside now source (argument given "package_name") (argumentOr given "version" "1.0.0")

end ScriptWorkbench.Package
