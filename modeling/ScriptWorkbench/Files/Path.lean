/-
Paths of files: a root, which is empty for a relative path, and the names below it. Empty names and single
dots are dropped when a path is read; two dots stay until it is resolved.
-/
import ScriptWorkbench.Text.Search

namespace ScriptWorkbench

/-- A path: its root, which is empty for a relative one, and its names. -/
structure Path where
  root : String
  names : List String
deriving Repr, DecidableEq, Inhabited

namespace Path

def splitNames (text : String) : List String :=
  (Text.splitChar '/' text).filter fun name => name != "" && name != "."

def rootOf (text : String) : String :=
  match text.toList.takeWhile (· == '/') with
  | [] => ""
  | ['/', '/'] => "//"
  | _ => "/"

def ofString (text : String) : Path :=
  ⟨rootOf text, splitNames text⟩

def toString (p : Path) : String :=
  if p.root == "" && p.names.isEmpty then "."
  else p.root ++ "/".intercalate p.names

def join (p q : Path) : Path :=
  if q.root == "" then ⟨p.root, p.names ++ q.names⟩ else q

def child (p : Path) (text : String) : Path :=
  p.join (ofString text)

def name (p : Path) : String :=
  p.names.getLast?.getD ""

def parent (p : Path) : Path :=
  ⟨p.root, p.names.dropLast⟩

def splitSuffix (name : String) : String × String :=
  let back := name.toList.reverse
  let suffix := back.takeWhile (· != '.')
  let stem := back.dropWhile (· != '.')
  if suffix.isEmpty || stem.length ≤ 1 then (name, "")
  else (String.ofList (stem.drop 1).reverse, String.ofList ('.' :: suffix.reverse))

def suffix (p : Path) : String :=
  (splitSuffix p.name).2

def stem (p : Path) : String :=
  (splitSuffix p.name).1

def components (p : Path) : List String :=
  if p.root == "" then p.names else p.root :: p.names

def stepInto (names : List String) (name : String) : List String :=
  if name == ".." then names.dropLast else names ++ [name]

def resolve (cwd : List String) (p : Path) : Path :=
  ⟨"/", p.names.foldl stepInto (if p.root == "" then cwd else [])⟩

def absolute (cwd : List String) (text : String) : Path :=
  let p := ofString text
  let q := p.resolve cwd
  if p.root == "//" then ⟨"//", q.names⟩ else q

def lastPart (text : String) : String :=
  (Text.splitChar '/' text).getLastD ""

def directoryPart (text : String) : String :=
  let back := text.toList.reverse.dropWhile (· != '/')
  String.ofList (if back.all (· == '/') then back else back.dropWhile (· == '/')).reverse

def beside (directory path : String) : String :=
  if directory == "" || Text.endsWith directory "/" then directory ++ path
  else directory ++ "/" ++ path

def extension (name : String) : String :=
  let back := name.toList.reverse
  let stem := (back.dropWhile (· != '.')).drop 1
  if back.all (· != '.') || stem.all (· == '.') then ""
  else String.ofList ('.' :: (back.takeWhile (· != '.')).reverse)

end Path

end ScriptWorkbench
