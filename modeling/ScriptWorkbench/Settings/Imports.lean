/-
Where the imports of a source text lead: the package paths of a store are searched for something of that name.
-/
import ScriptWorkbench.Files.Glob
import ScriptWorkbench.Pattern.Matching
import ScriptWorkbench.Pattern.Reader
import ScriptWorkbench.Settings.Store

namespace ScriptWorkbench.Settings

def firstHolding (name : Json) : List Json → Run (Option Path)
  | [] => return none
  | directory :: rest => do
    let p ← shaped directory.path
    let place := p.child (← shaped name.pathPart)
    if ← Store.isThere place.toString then return some place else firstHolding name rest

def Store.findInPaths (s : Store) (name : Json) : Run (Option Path) := do
  let all ← shaped ((← s.paths).memberOr "packagePaths" (.arr []))
  let all ← shaped all.elements
  firstHolding name all

def importPattern : Pattern :=
  match Pattern.read .empty .none "import\\s+([a-zA-Z_]\\w*)\\s*;".toList with
  | .ok p => p
  | .error _ => .nothing

def importedNames (source : String) : List String :=
  (importPattern.findAll source.toList).map fun m =>
    String.ofList ((m.group? 1 source.toList).getD [])

/-- A file, and where the packages are that it imports. -/
structure Located where
  file : String
  places : List (String × Path)
deriving Repr, DecidableEq

def Located.json (l : Located) : Json :=
  .obj [("file", .str l.file), ("corrected", .bool (!l.places.isEmpty)),
    ("corrections", .arr (l.places.map fun p =>
      .obj [("package", .str p.1), ("path", .str p.2.toString)])),
    ("originalContent", .bool true)]

def placeCount (files : List Located) : Nat :=
  files.foldl (fun n l => n + l.places.length) 0

def projectReport (now : String) (directory : Path) (files : List Located) : Json :=
  .obj [("project", .str directory.toString), ("files", .arr (files.map Located.json)),
    ("totalCorrected", .int (placeCount files)), ("timestamp", .str now)]

def Store.locateAll (s : Store) : List String → Run (List (String × Path))
  | [] => return []
  | name :: rest => do
    let here ← s.findInPaths (.str name)
    let others ← s.locateAll rest
    return match here with
      | some p => (name, p) :: others
      | none => others

def Store.locateImports (s : Store) (file : Path) : Run Located := do
  let source ← onFiles (Files.reading file.toString)
  return ⟨file.toString, ← s.locateAll (importedNames source)⟩

def Store.locateImportsIn (s : Store) : List Path → Run (List Located)
  | [] => return []
  | file :: rest => do
    let here ← s.locateImports file
    let others ← s.locateImportsIn rest
    return if here.places.isEmpty then others else here :: others

def Store.locateProjectImports (s : Store) (directory : Path) : Run (List Located) := do
  let found := (← get).glob directory "*.prisma"
  let located ← s.locateImportsIn found.paths
  match found.failure with
  | some e => throw (.file e)
  | none => return located

end ScriptWorkbench.Settings
