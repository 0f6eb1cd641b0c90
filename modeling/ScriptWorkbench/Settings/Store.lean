/-
Settings kept in files.

Three files of one directory hold the packages that were added, the paths to look in, and the settings proper.
Every operation reads the one file it concerns, changes the value and writes the whole file.
-/
import ScriptWorkbench.Files.Action
import ScriptWorkbench.Json.Call
import ScriptWorkbench.Json.Reader
import ScriptWorkbench.Json.Writer

namespace ScriptWorkbench.Settings

/-- Why an operation on a store fails. -/
inductive Failure where
  | file (error : FileError)
  | json (text : String) (error : Json.ReadError)
  /-- A text cannot be encoded. The character with code point zero stands for the halves of characters in
  it, and the first of these is given. -/
  | torn (text : List Char) (half : Nat)
  | shape (error : Json.AccessError)
deriving Repr, DecidableEq

def Failure.message : Failure → String
  | .file e => e.message
  | .json text e => e.message text.toList
  | .torn text half =>
    let start := text.idxOf (Char.ofNat 0)
    let count := ((text.drop start).takeWhile (· == Char.ofNat 0)).length
    "'utf-8' codec can't encode character" ++
      (if count = 1 then " '\\u" ++ String.ofList (Text.hexDigits 4 half) ++ s!"' in position {start}"
       else s!"s in position {start}-{start + count - 1}") ++ ": surrogates not allowed"
  | .shape e => e.message

/-- A store is known by its directory; all else is in the files. -/
structure Store where
  directory : Path
deriving Repr, DecidableEq, Inhabited

/-- An operation on a store. -/
abbrev Run (α : Type) := Action Files Failure α

def shaped {α : Type} (r : Except Json.AccessError α) : Run α :=
  Action.ofExcept .shape r

def onFiles {α : Type} (a : Action Files FileError α) : Run α :=
  Action.within id (fun fs _ => fs) .file a

namespace Store

/-! ## The files -/

def packagesFile (s : Store) : String := (s.directory.child "packages.json").toString

def pathsFile (s : Store) : String := (s.directory.child "paths.json").toString

def settingsFile (s : Store) : String := (s.directory.child "settings.json").toString

/-- A half of a character, which cannot be encoded, is noticed when the file is open for writing and so has
been emptied. -/
def save (file : String) (v : Json) : Run Unit :=
  if v.writable then
    match v.halves with
    | [] => onFiles (Files.writing file v.writeFile)
    | half :: _ => do
      onFiles (Files.writing file "")
      throw (.torn (v.writeAt 0) half)
  else throw (.json "" (.number .unwritable))

/-- Whether there is something at a path. -/
def isThere (file : String) : Run Bool := do
  return (← Action.ofExcept .file ((← get).lookUp file)).isSome

/-- The value in a file; a file that is not there counts as an empty object. -/
def load (file : String) : Run Json := do
  if ← isThere file then
    let text ← onFiles (Files.reading file)
    Action.ofExcept (.json text) (Json.read text)
  else return .obj []

/-- What a new file holds. -/
def fresh (now : String) (fields : Json.Fields) : Json :=
  .obj (("version", .str "1.0.0") :: ("lastUpdated", .str now) :: fields)

/-- Write a new file, unless there is one. -/
def saveNew (now file : String) (fields : Run Json.Fields) : Run Unit := do
  if ← isThere file then return else save file (fresh now (← fields))

/-- The paths of a new store. -/
def freshPaths : Run Json.Fields := do
  let fs ← get
  let here ← Action.ofExcept .file fs.workingPath
  return [("sourcePaths", .arr []),
    ("packagePaths", .arr [.str (here.child "opn.import").toString,
      .str ((fs.homePath.child ".opn").child "packages").toString]),
    ("outputPath", .str (here.child "opn_build").toString)]

/-- The settings of a new store. -/
def freshSettings : Json.Fields :=
  [("autoCorrectPaths", .bool true), ("autoCompile", .bool false),
   ("targetLanguage", .str "python"), ("debugMode", .bool false), ("encoding", .str "utf-8")]

def homeDirectory (fs : Files) : Path :=
  (fs.homePath.child ".opn").child "config"

def directoryOf (fs : Files) : Json → Except Json.AccessError Path
  | .null => .ok (homeDirectory fs)
  | v => v.path

/-- Open the store in a directory, or in the one below the home directory. -/
def openAt (now : String) (directory : Json) : Run Store := do
  let s : Store := ⟨← shaped (directoryOf (← get) directory)⟩
  onFiles (Files.making s.directory)
  saveNew now s.packagesFile (pure [("packages", .arr [])])
  saveNew now s.pathsFile freshPaths
  saveNew now s.settingsFile (pure freshSettings)
  return s

/-! ## Packages -/

/-- A path that is given, made absolute. -/
def resolved : Json → Run String
  | .torn codes => throw (.torn (codes.map Char.ofNat) ((codes.find? Json.isHalf).getD 0))
  | v => do
    let p ← shaped v.path
    return (← Action.ofExcept .file ((← get).resolve p)).toString

/-- Write a file with the time of the change in it. -/
def saveAt (now file : String) (v : Json) : Run Json := do
  let v ← shaped (v.assign "lastUpdated" (.str now))
  save file v
  return v

/-- Put a package behind those that are there. -/
def addPackage (s : Store) (now : String) (info : Json) : Run Json := do
  let config ← load s.packagesFile
  let name ← shaped (info.memberOr "name" .null)
  let version ← shaped (info.memberOr "version" (.str "1.0.0"))
  let path ← resolved (← shaped (info.memberOr "path" .null))
  let main ← shaped (info.memberOr "main" (.str "index.prisma"))
  let package : Json := .obj [("name", name), ("version", version), ("path", .str path),
    ("main", main), ("addedAt", .str now)]
  let packages ← shaped (config.member "packages" >>= fun l => l.append package)
  let config ← shaped (config.assign "packages" packages)
  let _ ← saveAt now s.packagesFile config
  return package

def packages (s : Store) : Run Json := do
  shaped ((← load s.packagesFile).memberOr "packages" (.arr []))

/-- The first package of a name, or null. -/
def firstNamed (name : Json) : List Json → Except Json.AccessError Json
  | [] => .ok .null
  | p :: rest => do
    if (← p.member "name").same name then return p else firstNamed name rest

def findPackage (s : Store) (name : Json) : Run Json := do
  let all ← shaped ((← s.packages).elements)
  shaped (firstNamed name all)

/-! ## Paths -/

def paths (s : Store) : Run Json :=
  load s.pathsFile

/-- Put a path behind those of a list, unless it is there. -/
def addPath (s : Store) (now list : String) (path : Json) : Run Unit := do
  let config ← load s.pathsFile
  let path ← resolved path
  let known ← shaped (config.member list)
  if ← shaped (known.holds path) then return
  let config ← shaped (known.append (.str path) >>= fun l => config.assign list l)
  let _ ← saveAt now s.pathsFile config

def addSourcePath (s : Store) (now : String) (path : Json) : Run Unit :=
  s.addPath now "sourcePaths" path

def addPackagePath (s : Store) (now : String) (path : Json) : Run Unit :=
  s.addPath now "packagePaths" path

def setOutputPath (s : Store) (now : String) (path : Json) : Run Unit := do
  let config ← load s.pathsFile
  let config ← shaped (config.assign "outputPath" (.str (← resolved path)))
  let _ ← saveAt now s.pathsFile config

/-! ## Settings proper -/

def settings (s : Store) : Run Json :=
  load s.settingsFile

/-- Lay updates over the settings. -/
def updateSettings (s : Store) (now : String) (updates : Json) : Run Json := do
  match ← load s.settingsFile with
  | .obj fields =>
    match Json.update (Json.entriesOf fields) updates with
    | (entries, .ok ()) => saveAt now s.settingsFile (.ofEntries entries)
    | (_, .error e) => throw (.shape e)
  | v => throw (.shape (.noOperation v.sort "update"))

/-! ## Operations by name -/

def kindName : String := "ConfigManager"

def parameters (operation : String) (names : List String) (needed : Nat) : Json.Parameters :=
  ⟨kindName ++ "." ++ operation, names, needed, true⟩

def openingParameters : Json.Parameters :=
  parameters "__init__" ["config_dir"] 0

def unaryOperations : List (String × String) :=
  [("add_package", "package_info"), ("add_source_path", "path"), ("add_package_path", "path"),
   ("set_output_path", "path"), ("update_settings", "updates"), ("find_package", "package_name"),
   ("find_package_in_paths", "package_name"), ("auto_correct_paths_in_file", "file_path"),
   ("auto_correct_project", "project_path")]

def nullaryOperations : List String :=
  ["get_packages", "get_paths", "get_settings"]

/-- Whether an operation exists and takes as many arguments. -/
def checkCall (operation : String) (given : Nat) : Except Json.AccessError Unit :=
  if operation == "reopen" then openingParameters.check given
  else match unaryOperations.lookup operation with
    | some name => (parameters operation [name] 1).check given
    | none =>
      if nullaryOperations.contains operation then (parameters operation [] 0).check given
      else .error (.noOperation kindName operation)

end Store

end ScriptWorkbench.Settings
