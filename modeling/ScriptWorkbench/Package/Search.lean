/-
Finding packages.

A package is a directory with an index file, under the first of the search directories that has it. A search
remembers the packages it has found, so a package stays where it was first found even if a directory is added.
-/
import ScriptWorkbench.Files.Basic
import ScriptWorkbench.Json.Reader

namespace ScriptWorkbench.Package

def indexName : String := "index.prisma"

/-- The directories to look in, and what was found before. -/
structure Search where
  directories : List Path
  found : List (String × Path)
deriving Repr, Inhabited

/-- What an import stands for. -/
inductive Import where
  | package (code : String)
  | native (name : String)
deriving Repr, DecidableEq

namespace Search

/-- The directories that are searched from the start: one in the current directory and one in the
home directory. -/
def initial (fs : Files) : Except FileError Search := do
  let here ← fs.workingPath
  return ⟨[here.child "opn.import", (fs.homePath.child ".opn").child "packages"], []⟩

def addDirectory (s : Search) (p : Path) : Search :=
  if s.directories.contains p then s else { s with directories := p :: s.directories }

def holds (fs : Files) (directory : Path) (name : String) : Except FileError Bool := do
  let p := directory.child name
  if (← fs.lookUp p.toString).isNone then return false
  return (← fs.lookUp (p.child indexName).toString).isSome

def locate? (fs : Files) (name : String) : List Path → Except FileError (Option Path)
  | [] => .ok none
  | d :: rest => do
    if ← holds fs d name then return some (d.child name) else locate? fs name rest

def find (fs : Files) (s : Search) (name : String) : Except FileError (Option Path × Search) :=
  match s.found.lookup name with
  | some p => .ok (some p, s)
  | none => do
    match ← locate? fs name s.directories with
    | some p => return (some p, { s with found := s.found ++ [(name, p)] })
    | none => return (none, s)

def findThen {α : Type} (fs : Files) (s : Search) (name : String) (missing : α)
    (f : Path → Except FileError α) : Except FileError α × Search :=
  match s.find fs name with
  | .error e => (.error e, s)
  | .ok (none, s) => (.ok missing, s)
  | .ok (some p, s) => (f p, s)

def indexText (fs : Files) (p : Path) : Except FileError (Option String) := do
  let index := (p.child indexName).toString
  if (← fs.lookUp index).isNone then return none
  return some (← fs.readText index)

def load (fs : Files) (s : Search) (name : String) : Except FileError (Option String) × Search :=
  s.findThen fs name none (indexText fs)

def metadataPath (p : Path) (name : String) : String :=
  (p.child (name ++ ".opn")).toString

/-- The description of a package: a JSON value in a file beside the index file. A file that cannot be
read counts as missing. -/
def metadata (fs : Files) (s : Search) (name : String) : Except FileError (Option Json) × Search :=
  s.findThen fs name none fun p => do
    let path := metadataPath p name
    let _ ← fs.lookUp path
    match fs.readText path with
    | .error _ => return none
    | .ok text => return (Json.read text).toOption

/-- What an imported name stands for: a package with a non-empty index file, otherwise a module of
the target language. -/
def resolve (fs : Files) (s : Search) (name : String) : Except FileError Import × Search :=
  s.findThen fs name (.native name) fun p => do
    match ← indexText fs p with
    | some code => return if code == "" then .native name else .package code
    | none => return .native name

end Search

end ScriptWorkbench.Package
