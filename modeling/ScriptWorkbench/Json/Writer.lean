/-
Writing JSON: files with two spaces of indentation per level, messages on one line. An integer that has too
many digits to be read again is not written to a file either.
-/
import ScriptWorkbench.Json.Basic
import ScriptWorkbench.Number.Read

namespace ScriptWorkbench.Json

def escapeChar (c : Char) : List Char :=
  if c = '"' then ['\\', '"']
  else if c = '\\' then ['\\', '\\']
  else if c = '\n' then ['\\', 'n']
  else if c = '\r' then ['\\', 'r']
  else if c = '\t' then ['\\', 't']
  else if c.toNat = 8 then ['\\', 'b']
  else if c.toNat = 12 then ['\\', 'f']
  else if c.toNat < 32 then '\\' :: 'u' :: Text.hexDigits 4 c.toNat
  else [c]

def writeString (s : String) : List Char :=
  '"' :: (s.toList.flatMap escapeChar ++ ['"'])

def writeTorn (half : Nat → List Char) (codes : List Nat) : List Char :=
  '"' :: (codes.flatMap (fun n => if isHalf n then half n else escapeChar (Char.ofNat n)) ++ ['"'])

def Name.write (half : Nat → List Char) : Name → List Char
  | .whole s => writeString s
  | .torn codes => writeTorn half codes

/-- In a file the character with code point zero, which is written for nothing else, stands for a half. -/
def fileHalf (_ : Nat) : List Char := [Char.ofNat 0]

def lineHalf (n : Nat) : List Char := '\\' :: 'u' :: Text.hexDigits 4 n

def writeInt (n : Int) : List Char :=
  if n < 0 then '-' :: Nat.toDigits 10 n.natAbs else Nat.toDigits 10 n.natAbs

mutual

def writable : Json → Bool
  | .int n => (Nat.toDigits 10 n.natAbs).length ≤ Number.maxDigits
  | .arr items => writableItems items
  | .obj fields => writableFields fields
  | _ => true

def writableItems : List Json → Bool
  | [] => true
  | v :: vs => writable v && writableItems vs

def writableFields : Fields → Bool
  | [] => true
  | (_, v) :: rest => writable v && writableFields rest

end

mutual

def halves : Json → List Nat
  | .torn codes => codes.filter isHalf
  | .arr items => halvesOfItems items
  | .obj fields => halvesOfFields fields
  | _ => []

def halvesOfItems : List Json → List Nat
  | [] => []
  | v :: vs => halves v ++ halvesOfItems vs

def halvesOfFields : Fields → List Nat
  | [] => []
  | (k, v) :: rest => k.halves ++ halves v ++ halvesOfFields rest

end

def newLine (level : Nat) : List Char :=
  '\n' :: List.replicate (2 * level) ' '

mutual

/-- A value whose first character stands at a level of indentation. -/
def writeAt (level : Nat) : Json → List Char
  | .null => "null".toList
  | .bool b => (if b then "true" else "false").toList
  | .int n => writeInt n
  | .real x => (Number.Format.data.write x).toList
  | .str s => writeString s
  | .torn codes => writeTorn fileHalf codes
  | .arr [] => ['[', ']']
  | .arr (v :: vs) =>
    '[' :: (newLine (level + 1) ++ writeAt (level + 1) v ++ writeItems (level + 1) vs ++
      newLine level ++ [']'])
  | .obj [] => ['{', '}']
  | .obj ((k, v) :: fs) =>
    '{' :: (newLine (level + 1) ++ k.write fileHalf ++ ':' :: ' ' :: writeAt (level + 1) v ++
      writeFields (level + 1) fs ++ newLine level ++ ['}'])

def writeItems (level : Nat) : List Json → List Char
  | [] => []
  | v :: vs => ',' :: (newLine level ++ writeAt level v ++ writeItems level vs)

def writeFields (level : Nat) : Fields → List Char
  | [] => []
  | (k, v) :: fs =>
    ',' :: (newLine level ++ k.write fileHalf ++ ':' :: ' ' :: writeAt level v ++
      writeFields level fs)

end

def writeFile (v : Json) : String :=
  String.ofList (writeAt 0 v)

mutual

def compactBefore (rest : List Char) : Json → List Char
  | .null => "null".toList ++ rest
  | .bool b => (if b then "true" else "false").toList ++ rest
  | .int n => writeInt n ++ rest
  | .real x => (Number.Format.data.write x).toList ++ rest
  | .str s => writeString s ++ rest
  | .torn codes => writeTorn lineHalf codes ++ rest
  | .arr vs => '[' :: compactItems (']' :: rest) false vs
  | .obj fs => '{' :: compactFields ('}' :: rest) false fs

def compactItems (rest : List Char) (comma : Bool) : List Json → List Char
  | [] => rest
  | v :: vs =>
    let tail := compactBefore (compactItems rest true vs) v
    if comma then ',' :: tail else tail

def compactFields (rest : List Char) (comma : Bool) : Fields → List Char
  | [] => rest
  | (k, v) :: fs =>
    let tail := k.write lineHalf ++ ':' :: compactBefore (compactFields rest true fs) v
    if comma then ',' :: tail else tail

end

def writeLine (v : Json) : String :=
  String.ofList (compactBefore [] v)

end ScriptWorkbench.Json
