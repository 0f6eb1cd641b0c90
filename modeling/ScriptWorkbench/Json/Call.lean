/-
Calls and reckoning with values. Whole numbers and truth values are reckoned with exactly; a floating-point
number makes the result one.
-/
import ScriptWorkbench.Json.Access

namespace ScriptWorkbench.Json

/-! ## Arguments -/

/-- What a function takes: the names of its parameters, of which the first ones are needed. A function
that belongs to an object is given that object before all else. -/
structure Parameters where
  function : String
  names : List String
  needed : Nat
  hasOwner : Bool
deriving Repr, DecidableEq

namespace Parameters

def ofNames (function : String) (names : List String) : Parameters :=
  ⟨function, names, names.length, false⟩

def check (p : Parameters) (given : Nat) : Except AccessError Unit :=
  let owner := if p.hasOwner then 1 else 0
  if p.names.length < given then
    .error (.extraArguments p.function (p.needed + owner) (p.names.length + owner) (given + owner))
  else if given < p.needed then
    .error (.missingArguments p.function ((p.names.take p.needed).drop given))
  else .ok ()

def checkNamed (p : Parameters) (given : List String) : Except AccessError Unit :=
  match given.find? fun name => !p.names.contains name with
  | some name => .error (.unknownArgument p.function name)
  | none =>
    match (p.names.take p.needed).filter fun name => !given.contains name with
    | [] => .ok ()
    | names => .error (.missingArguments p.function names)

end Parameters

/-! ## Reckoning -/

def whole? : Json → Option Int
  | .int n => some n
  | .bool b => some (if b then 1 else 0)
  | _ => none

def real? : Json → Option (Except AccessError Number.Binary64)
  | .real x => some (.ok x)
  | v => v.whole?.map fun n =>
    match Number.Binary64.ofInt n with
    | .infinite _ => .error .tooLarge
    | x => .ok x

def reckon (symbol : String) (onWhole : Int → Int → Int)
    (onReal : Number.Binary64 → Number.Binary64 → Number.Binary64) (a b : Json) :
    Except AccessError Json :=
  match a.whole?, b.whole? with
  | some m, some n => .ok (.int (onWhole m n))
  | _, _ =>
    match a.real?, b.real? with
    | some x, some y => do return .real (onReal (← x) (← y))
    | _, _ => .error (.noArithmetic symbol a.sort b.sort)

def plus (a b : Json) : Except AccessError Json :=
  reckon "+" (· + ·) Number.Binary64.add a b

def minus (a b : Json) : Except AccessError Json :=
  reckon "-" (· - ·) (fun x y => x.add y.negate) a b

end ScriptWorkbench.Json
