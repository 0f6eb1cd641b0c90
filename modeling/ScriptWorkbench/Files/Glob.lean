/-
Searching for files by patterns.
-/
import ScriptWorkbench.Files.Basic

namespace ScriptWorkbench

namespace Glob

/-! ## Names -/

/-- In a name, a star stands for any stretch of characters, a question mark for any one of them, and brackets for
one of the characters listed between them. -/
inductive Piece where
  | any
  | one
  | char (c : Char)
  | choice (negated : Bool) (ranges : List (Char × Char))
deriving Repr, DecidableEq

def ranges : List Char → List (Char × Char)
  | a :: '-' :: b :: rest => (a, b) :: ranges rest
  | a :: rest => (a, a) :: ranges rest
  | [] => []

/-- Split what follows an opening bracket at the closing one. A closing bracket in first place is an
ordinary character. -/
def splitBracket (cs : List Char) : Option (Bool × List Char × List Char) :=
  let (negated, cs) := if cs.head? = some '!' then (true, cs.drop 1) else (false, cs)
  let (first, rest) := if cs.head? = some ']' then ([']'], cs.drop 1) else ([], cs)
  match rest.dropWhile (· != ']') with
  | [] => none
  | _ :: after => some (negated, first ++ rest.takeWhile (· != ']'), after)

def pieces : Nat → List Char → List Piece
  | 0, _ => []
  | _ + 1, [] => []
  | n + 1, '*' :: cs => .any :: pieces n cs
  | n + 1, '?' :: cs => .one :: pieces n cs
  | n + 1, '[' :: cs =>
    match splitBracket cs with
    | some (negated, inside, after) => .choice negated (ranges inside) :: pieces n after
    | none => .char '[' :: pieces n cs
  | n + 1, c :: cs => .char c :: pieces n cs

def Piece.fits (c : Char) : Piece → Bool
  | .any => false
  | .one => true
  | .char d => c == d
  | .choice negated rs => (rs.any fun r => r.1.toNat ≤ c.toNat && c.toNat ≤ r.2.toNat) != negated

def suffixes {α : Type} : List α → List (List α)
  | [] => [[]]
  | a :: as => (a :: as) :: suffixes as

def fits : List Piece → List Char → Bool
  | [], cs => cs.isEmpty
  | .any :: ps, cs => (suffixes cs).any fun rest => fits ps rest
  | _ :: _, [] => false
  | p :: ps, c :: cs => p.fits c && fits ps cs

def matchesName (pattern name : String) : Bool :=
  fits (pieces pattern.length pattern.toList) name.toList

/-! ## Patterns -/

/-- Two stars as a name stand for a directory and all directories below it, and a slash at the end lets only
directories through. -/
inductive Step where
  | deep
  | fitting (pattern : String)
  | exact (name : String)
  | complete
deriving Repr, DecidableEq

def isWild (name : String) : Bool :=
  name.toList.any fun c => c == '*' || c == '?' || c == '['

def stepOf (name : String) : Except FileError Step :=
  if name == "**" then .ok .deep
  else if Text.occursIn "**" name then .error .badPattern
  else .ok (if isWild name then .fitting name else .exact name)

def stepsOf (pattern : String) : Except FileError (List Step) := do
  let steps ← (Path.splitNames pattern).mapM stepOf
  return if Text.endsWith pattern "/" then steps ++ [.complete] else steps

/-- A search can fail half-way, when a name turns out to be too long; what was found before stays found. -/
structure Found where
  paths : List Path
  failure : Option FileError
deriving Repr, DecidableEq

namespace Found

def nothing : Found := ⟨[], none⟩

def append (a b : Found) : Found :=
  if a.failure.isSome then a else ⟨a.paths ++ b.paths, b.failure⟩

def each {α : Type} (f : α → Found) : List α → Found
  | [] => .nothing
  | a :: rest => (f a).append (each f rest)

def ofLook {α : Type} (f : α → Found) : Except FileError α → Found
  | .ok a => f a
  | .error e => ⟨[], some e⟩

end Found

end Glob

namespace Files

def within (p : Path) (name : String) : Path :=
  ⟨p.root, p.names ++ [name]⟩

def directoriesFrom (fs : Files) (p : Path) : List Path :=
  match fs.locate p.toString with
  | .ok (.occupied names .directory) =>
    p :: fs.entries.filterMap fun e =>
      if e.2 == .directory && names.isPrefixOf e.1 && names.length < e.1.length then
        some ⟨p.root, p.names ++ e.1.drop names.length⟩
      else none
  | _ => [p]

/-- The paths that lead from a directory through the steps of a pattern. Only directories are left
before the last step. -/
def select (fs : Files) : List Glob.Step → Path → Glob.Found
  | [], p | .complete :: _, p => ⟨[p], none⟩
  | .exact name :: rest, p =>
    let q := within p name
    .ofLook (fun e => if goesOn rest e then fs.select rest q else .nothing) (fs.lookUp q.toString)
  | .fitting pattern :: rest, p =>
    .ofLook (fun entries =>
      .each (fun e => if goesOn rest (some e.2) then fs.select rest (within p e.1) else .nothing)
        (entries.filter fun e => Glob.matchesName pattern e.1)) (fs.list p.toString)
  | .deep :: rest, p =>
    let found := Glob.Found.each (fs.select rest) (fs.directoriesFrom p)
    ⟨found.paths.eraseDups, found.failure⟩
where
  goesOn (rest : List Glob.Step) (e : Option Entry) : Bool :=
    if rest.isEmpty then e.isSome else e == some .directory

def glob (fs : Files) (root : Path) (pattern : String) : Glob.Found :=
  .ofLook (fun steps =>
    .ofLook (fun e => if e == some .directory then fs.select (.deep :: steps) root else .nothing)
      (fs.lookUp root.toString)) (Glob.stepsOf pattern)

end Files

end ScriptWorkbench
