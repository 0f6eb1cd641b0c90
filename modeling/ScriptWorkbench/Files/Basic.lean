/-
A file system as a value.

Files and directories are entries under absolute lists of names; the file system also knows the directory it
is seen from and the home directory. Operations take a path as text, because that text is what a failure
quotes.
-/
import ScriptWorkbench.Files.Path
import ScriptWorkbench.Text.Newline
import ScriptWorkbench.Text.Utf8

namespace ScriptWorkbench

/-- What is in a file: text, or bytes that need not be one. -/
inductive Content where
  | text (text : String)
  | bytes (bytes : List UInt8)
deriving Repr, DecidableEq, Inhabited

/-- What stands under a list of names. -/
inductive Entry where
  | file (content : Content)
  | directory
deriving Repr, DecidableEq, Inhabited

/-- Why an operation on files fails. -/
inductive FileError where
  | notFound (path : String)
  | alreadyThere (path : String)
  | notDirectory (path : String)
  | isDirectory (path : String)
  | tooLong (path : String)
  | zeroByte
  | lostDirectory
  | badPattern
  | notText (error : Text.Utf8.DecodeError)
deriving Repr, DecidableEq

def FileError.message : FileError → String
  | .notFound path => "[Errno 2] No such file or directory: " ++ Text.quote path
  | .alreadyThere path => "[Errno 17] File exists: " ++ Text.quote path
  | .notDirectory path => "[Errno 20] Not a directory: " ++ Text.quote path
  | .isDirectory path => "[Errno 21] Is a directory: " ++ Text.quote path
  | .tooLong path => "[Errno 36] File name too long: " ++ Text.quote path
  | .zeroByte => "embedded null byte"
  | .lostDirectory => "[Errno 2] No such file or directory"
  | .badPattern => "Invalid pattern: '**' can only be an entire path component"
  | .notText error => error.message

def FileError.isMissing : FileError → Bool
  | .notFound _ | .lostDirectory => true
  | _ => false

def Content.read : Content → Except FileError String
  | .text s => .ok (String.ofList (Text.normalizeLineEnds s.toList))
  | .bytes b =>
    match Text.Utf8.decode b with
    | .ok cs => .ok (String.ofList (Text.normalizeLineEnds cs))
    | .error e => .error (.notText e)

def Content.chars : Content → List Char
  | .text s => s.toList
  | .bytes b => Text.Utf8.decodeLenient b

def Content.readLenient (c : Content) : String :=
  String.ofList (Text.normalizeLineEnds c.chars)

/-- A file system, with the directory it is seen from, which is adrift once it has been removed. -/
structure Files where
  entries : List (List String × Entry)
  cwd : List String
  home : List String
  adrift : Bool
deriving Repr, Inhabited

namespace Files

/-! ## Looking -/

def entry? (fs : Files) (names : List String) : Option Entry :=
  if names.isEmpty then some .directory else fs.entries.lookup names

/-- Where a path leads. -/
inductive Place where
  | occupied (names : List String) (entry : Entry)
  | free (names : List String)
  | removed

def Place.isFile : Place → Bool
  | .occupied _ (.file _) => true
  | _ => false

/-- Why a path leads nowhere. -/
inductive Astray where
  | missing
  | throughFile
  | tooLong

def nameLimit : Nat := 255

def pathLimit : Nat := 4096

def follow (fs : Files) (here : List String) : List String → Except Astray Place
  | [] =>
    match fs.entry? here with
    | some e => .ok (.occupied here e)
    | none => .error .missing
  | name :: rest =>
    match fs.entry? here with
    | none => .error .missing
    | some (.file _) => .error .throughFile
    | some .directory =>
      if nameLimit < name.utf8ByteSize then .error .tooLong
      else
        let next := Path.stepInto here name
        match fs.entry? next with
        | some _ => fs.follow next rest
        | none => if rest.isEmpty then .ok (.free next) else .error .missing

/-- When the directory that the file system is seen from is removed, it stays the current one: nothing is
found in it any more, even if a directory of that name is made again, and it has no path. Two dots still lead
to the directory above it. -/
def followAdrift (fs : Files) : List String → Except Astray Place
  | [] => .ok .removed
  | ".." :: rest => fs.follow fs.cwd.dropLast rest
  | _ => .error .missing

def namesDirectory (path : String) : Bool :=
  Text.endsWith path "/" || Text.endsWith path "/."

def locate (fs : Files) (path : String) : Except FileError Place :=
  if path.toList.contains (Char.ofNat 0) then .error .zeroByte
  else if path == "" then .error (.notFound path)
  else if pathLimit ≤ path.utf8ByteSize then .error (.tooLong path)
  else
    let names := Path.splitNames path
    let place :=
      if Text.startsWith path "/" then fs.follow [] names
      else if fs.adrift then fs.followAdrift names
      else fs.follow fs.cwd names
    match place with
    | .error .missing => .error (.notFound path)
    | .error .throughFile => .error (.notDirectory path)
    | .error .tooLong => .error (.tooLong path)
    | .ok place =>
      if place.isFile && namesDirectory path then .error (.notDirectory path) else .ok place

def Place.entry? : Place → Option Entry
  | .occupied _ e => some e
  | .free _ => none
  | .removed => some .directory

def lookUp (fs : Files) (path : String) : Except FileError (Option Entry) :=
  match fs.locate path with
  | .ok place => .ok place.entry?
  | .error (.tooLong path) => .error (.tooLong path)
  | .error _ => .ok none

def find? (fs : Files) (path : String) : Option Entry :=
  (fs.lookUp path).toOption.join

def exists? (fs : Files) (path : String) : Bool :=
  (fs.find? path).isSome

def isDirectory (fs : Files) (path : String) : Bool :=
  fs.find? path == some .directory

def homePath (fs : Files) : Path := ⟨"/", fs.home⟩

def workingPath (fs : Files) : Except FileError Path :=
  if fs.adrift then .error .lostDirectory else .ok ⟨"/", fs.cwd⟩

def resolve (fs : Files) (p : Path) : Except FileError Path :=
  if p.names.any fun name => name.toList.contains (Char.ofNat 0) then .error .zeroByte
  else if p.root == "" && fs.adrift then .error .lostDirectory
  else .ok (p.resolve fs.cwd)

def absolute (fs : Files) (text : String) : Except FileError Path :=
  if !Text.startsWith text "/" && fs.adrift then .error .lostDirectory
  else .ok (Path.absolute fs.cwd text)

/-! ## Reading -/

def content (fs : Files) (path : String) : Except FileError Content := do
  match ← fs.locate path with
  | .occupied _ (.file c) => return c
  | .occupied _ .directory | .removed => .error (.isDirectory path)
  | .free _ => .error (.notFound path)

def readText (fs : Files) (path : String) : Except FileError String := do
  (← fs.content path).read

def exactText (fs : Files) (names : List String) : Except FileError String :=
  let path := "/" ++ "/".intercalate names
  match fs.entry? names with
  | some (.file (.text s)) => .ok s
  | some (.file (.bytes b)) =>
    match Text.Utf8.decode b with
    | .ok cs => .ok (String.ofList cs)
    | .error e => .error (.notText e)
  | some .directory => .error (.isDirectory path)
  | none => .error (.notFound path)

def tree (fs : Files) (names : List String) : List String :=
  (fs.entries.filterMap fun e =>
    match e.2 with
    | .file _ =>
      if names.isPrefixOf e.1 then some ("/".intercalate (e.1.drop names.length)) else none
    | .directory => none).mergeSort (· ≤ ·)

def entriesIn (fs : Files) (names : List String) : List (String × Entry) :=
  fs.entries.filterMap fun e =>
    if e.1.dropLast == names then e.1.getLast?.map fun name => (name, e.2) else none

def list (fs : Files) (path : String) : Except FileError (List (String × Entry)) := do
  match ← fs.locate path with
  | .occupied names .directory => return fs.entriesIn names
  | .removed => return []
  | .occupied _ (.file _) => .error (.notDirectory path)
  | .free _ => .error (.notFound path)

/-! ## Writing -/

def put (fs : Files) (names : List String) (e : Entry) : Files :=
  if (fs.entries.lookup names).isSome then
    { fs with entries := fs.entries.map fun x => if x.1 == names then (names, e) else x }
  else { fs with entries := fs.entries ++ [(names, e)] }

def writeText (fs : Files) (path text : String) : Except FileError Files := do
  match ← fs.locate path with
  | .occupied names (.file _) => return fs.put names (.file (.text text))
  | .occupied _ .directory | .removed => .error (.isDirectory path)
  | .free names =>
    if namesDirectory path then .error (.isDirectory path)
    else return fs.put names (.file (.text text))

def makeDirectory (fs : Files) (path : String) : Except FileError Files := do
  match ← fs.locate path with
  | .occupied .. | .removed => .error (.alreadyThere path)
  | .free names => return fs.put names .directory

def ensureDirectory (fs : Files) (path : String) : Except FileError Files :=
  match fs.makeDirectory path with
  | .ok fs => .ok fs
  | .error e => if fs.isDirectory path then .ok fs else .error e

/-- Make a directory and those above it, unless they are there. What has been made stays when a
later step fails. -/
def ensureDirectories (fs : Files) (p : Path) : Except FileError Unit × Files :=
  match fs.makeDirectory p.toString with
  | .ok fs => (.ok (), fs)
  | .error (.notFound path) =>
    if _h : p.names = [] then (.error (.notFound path), fs)
    else
      match fs.ensureDirectories p.parent with
      | (.error e, fs) => (.error e, fs)
      | (.ok (), fs) =>
        match fs.ensureDirectory p.toString with
        | .ok fs => (.ok (), fs)
        | .error e => (.error e, fs)
  | .error e => if fs.isDirectory p.toString then (.ok (), fs) else (.error e, fs)
termination_by p.names.length
decreasing_by
  simp only [Path.parent, List.length_dropLast]
  have := List.length_pos_iff.2 _h
  omega

def enter (fs : Files) (path : String) : Except FileError Files := do
  match ← fs.locate path with
  | .occupied names .directory => return { fs with cwd := names, adrift := false }
  | .removed => return fs
  | .occupied _ (.file _) => .error (.notDirectory path)
  | .free _ => .error (.notFound path)

def remove (fs : Files) (names : List String) : Files :=
  { fs with
    entries := fs.entries.filter fun e => !names.isPrefixOf e.1
    adrift := fs.adrift || names.isPrefixOf fs.cwd }

def install (fs : Files) (names : List String) (e : Entry) : Files :=
  let above := (List.range names.length).map names.take
  let fs := above.foldl (fun fs d =>
    if (fs.entry? d).isSome then fs else fs.put d .directory) fs
  fs.put names e

end Files

end ScriptWorkbench
