/-
Taking JSON values apart and changing them. A value that has not the wanted shape is a failure that names its
sort.
-/
import ScriptWorkbench.Files.Path
import ScriptWorkbench.Json.Basic

namespace ScriptWorkbench.Json

/-- Why a value cannot be used in the way that is asked for. -/
inductive AccessError where
  | noField (key : String)
  | noNumber (place : Nat)
  | noPlace (sort : String)
  | noOperation (sort operation : String)
  | noParts (sort : String)
  | noNames (sort : String)
  | fixed (sort : String)
  | noMembers (sort : String)
  | noElements (sort : String)
  | noLength (sort : String)
  | noPath (sort : String)
  | noPathPart (sort : String)
  | noSequence (place : Nat)
  | noPair (place length : Nat)
  | noName (sort : String)
  | noText (sort : String)
  | noArithmetic (symbol left right : String)
  | tooLarge
  | missingArguments (function : String) (names : List String)
  | extraArguments (function : String) (least most given : Nat)
  | unknownArgument (function name : String)
deriving Repr, DecidableEq

def numbered (number : Nat) (word : String) : String :=
  toString number ++ " " ++ word ++ (if number = 1 then "" else "s")

def enumeration : List String → String
  | [] => ""
  | [a] => a
  | [a, b] => a ++ " and " ++ b
  | a :: b :: rest => ", ".intercalate ((a :: b :: rest).dropLast) ++ ", and " ++ rest.getLastD ""

def AccessError.message : AccessError → String
  | .noField key => Text.quote key
  | .noNumber place => toString place
  | .noPlace sort => (if sort == "str" then "string" else sort) ++ " index out of range"
  | .noOperation sort operation => s!"'{sort}' object has no attribute '{operation}'"
  | .noParts sort => s!"'{sort}' object is not subscriptable"
  | .noNames "str" => "string indices must be integers, not 'str'"
  | .noNames sort => s!"{sort} indices must be integers or slices, not str"
  | .fixed sort => s!"'{sort}' object does not support item assignment"
  | .noMembers sort => s!"argument of type '{sort}' is not iterable"
  | .noElements sort => s!"'{sort}' object is not iterable"
  | .noLength sort => s!"object of type '{sort}' has no len()"
  | .noPath sort => s!"expected str, bytes or os.PathLike object, not {sort}"
  | .noPathPart sort => s!"unsupported operand type(s) for /: 'PosixPath' and '{sort}'"
  | .noSequence place => s!"cannot convert dictionary update sequence element #{place} to a sequence"
  | .noPair place length =>
    s!"dictionary update sequence element #{place} has length {length}; 2 is required"
  | .noName sort => s!"unhashable type: '{sort}'"
  | .noText sort => "can only concatenate str (not \"" ++ sort ++ "\") to str"
  | .noArithmetic symbol left right =>
    s!"unsupported operand type(s) for {symbol}: '{left}' and '{right}'"
  | .tooLarge => "int too large to convert to float"
  | .missingArguments function names =>
    function ++ "() missing " ++ numbered names.length "required positional argument" ++ ": " ++
      enumeration (names.map Text.quote)
  | .extraArguments function least most given =>
    function ++ "() takes " ++
      (if least = most then numbered most "positional argument"
       else s!"from {least} to {most} positional arguments") ++
      s!" but {given} " ++ (if given = 1 then "was given" else "were given")
  | .unknownArgument function name =>
    s!"{function}() got an unexpected keyword argument " ++ Text.quote name

/-! ## Looking -/

def member (key : String) : Json → Except AccessError Json
  | .obj fields =>
    match fields.lookup (.whole key) with
    | some v => .ok v
    | none => .error (.noField key)
  | .arr _ => .error (.noNames "list")
  | .str _ | .torn _ => .error (.noNames "str")
  | v => .error (.noParts v.sort)

def memberOr (v : Json) (key : String) (default : Json) : Except AccessError Json :=
  match v with
  | .obj fields => .ok ((fields.lookup (.whole key)).getD default)
  | v => .error (.noOperation v.sort "get")

def item (place : Nat) : Json → Except AccessError Json
  | .arr items =>
    match items[place]? with
    | some v => .ok v
    | none => .error (.noPlace "list")
  | .str s =>
    match s.toList[place]? with
    | some c => .ok (.str (String.singleton c))
    | none => .error (.noPlace "str")
  | .torn codes =>
    match codes[place]? with
    | some n => .ok (ofCodes [n])
    | none => .error (.noPlace "str")
  | .obj _ => .error (.noNumber place)
  | v => .error (.noParts v.sort)

def elements : Json → Except AccessError (List Json)
  | .arr items => .ok items
  | .obj fields => .ok (fields.map (·.1.value))
  | .str s => .ok (s.toList.map fun c => .str (String.singleton c))
  | .torn codes => .ok (codes.map fun n => ofCodes [n])
  | v => .error (.noElements v.sort)

def count (v : Json) : Except AccessError Nat :=
  match v.elements with
  | .ok parts => .ok parts.length
  | .error _ => .error (.noLength v.sort)

def entries : Json → Except AccessError Fields
  | .obj fields => .ok fields
  | v => .error (.noOperation v.sort "items")

def holds (text : String) : Json → Except AccessError Bool
  | .arr items => .ok (items.any fun v => v.same (.str text))
  | .obj fields => .ok (fields.any (·.1 == .whole text))
  | .str s => .ok (Text.occursIn text s)
  | .torn codes => .ok (Text.indexOf? text.toList (codes.map Char.ofNat)).isSome
  | v => .error (.noMembers v.sort)

def path : Json → Except AccessError Path
  | .str s => .ok (Path.ofString s)
  | .torn codes => .ok (Path.ofString (mended codes))
  | v => .error (.noPath v.sort)

def pathPart : Json → Except AccessError String
  | .str s => .ok s
  | .torn codes => .ok (mended codes)
  | v => .error (.noPathPart v.sort)

def text : Json → Except AccessError String
  | .str s => .ok s
  | .torn codes => .ok (mended codes)
  | v => .error (.noText v.sort)

/-! ## Changing -/

def assign (v : Json) (key : String) (value : Json) : Except AccessError Json :=
  match v with
  | .obj fields => .ok (.obj (setField key value fields))
  | .arr _ => .error (.noNames "list")
  | v => .error (.fixed v.sort)

def append (v value : Json) : Except AccessError Json :=
  match v with
  | .arr items => .ok (.arr (items ++ [value]))
  | v => .error (.noOperation v.sort "append")

/-! ## Entries -/

/-- Fields whose keys can be any values. -/
abbrev Entries := List (Json × Json)

def entriesOf (fields : Fields) : Entries :=
  fields.map fun f => (f.1.value, f.2)

/-- The name under which a value is written as a key. -/
def keyName : Json → Name
  | .str s => s
  | .torn codes => .torn codes
  | .null => "null"
  | .bool b => if b then "true" else "false"
  | .int n => toString n
  | .real x => Number.Format.data.write x
  | .arr _ | .obj _ => ""

def ofEntries (entries : Entries) : Json :=
  .obj (entries.map fun e => (keyName e.1, e.2))

def setEntry (key value : Json) : Entries → Entries
  | [] => [(key, value)]
  | (k, v) :: rest => if k.same key then (k, value) :: rest else (k, v) :: setEntry key value rest

def key : Json → Except AccessError Json
  | .arr _ => .error (.noName "list")
  | .obj _ => .error (.noName "dict")
  | v => .ok v

def pairAt (place : Nat) (v : Json) : Except AccessError (Json × Json) :=
  match v.elements with
  | .error _ => .error (.noSequence place)
  | .ok [k, value] => k.key.map fun k => (k, value)
  | .ok parts => .error (.noPair place parts.length)

def updatePairs (entries : Entries) (place : Nat) : List Json → Entries × Except AccessError Unit
  | [] => (entries, .ok ())
  | v :: rest =>
    match pairAt place v with
    | .error e => (entries, .error e)
    | .ok (k, value) => updatePairs (setEntry k value entries) (place + 1) rest

def update (entries : Entries) : Json → Entries × Except AccessError Unit
  | .obj new => (new.foldl (fun l f => setEntry f.1.value f.2 l) entries, .ok ())
  | v =>
    match v.elements with
    | .error e => (entries, .error e)
    | .ok items => updatePairs entries 0 items

end ScriptWorkbench.Json
