/-
JSON values.

Numbers without a point or an exponent are integers of any size. The fields of an object keep the order in
which they were first written. A text can hold halves of characters that stand alone, in the name of a field
too.
-/
import ScriptWorkbench.Number.Written
import ScriptWorkbench.Text.Quoted

namespace ScriptWorkbench

/-- The name of a field: a text, or the code points of one in which halves of characters stand alone. -/
inductive Json.Name where
  | whole (text : String)
  | torn (codes : List Nat)
deriving Repr, DecidableEq, Inhabited

instance : Coe String Json.Name := ⟨.whole⟩

/-- A value. A text with halves of characters in it is torn, and is kept as its codes. -/
inductive Json where
  | null
  | bool (value : Bool)
  | int (value : Int)
  | real (value : Number.Binary64)
  | str (value : String)
  | torn (codes : List Nat)
  | arr (items : List Json)
  | obj (fields : List (Json.Name × Json))
deriving Repr, Inhabited

namespace Json

/-! ## Objects -/

/-- The fields of an object, in order. -/
abbrev Fields := List (Name × Json)

def fields? : Json → Option Fields
  | .obj fields => some fields
  | _ => none

def items? : Json → Option (List Json)
  | .arr items => some items
  | _ => none

def str? : Json → Option String
  | .str s => some s
  | _ => none

/-- Gives a field its value, in its old place if it has one. -/
def setField (key : Name) (value : Json) : Fields → Fields
  | [] => [(key, value)]
  | (k, v) :: rest => if k = key then (k, value) :: rest else (k, v) :: setField key value rest

def field? (key : String) (v : Json) : Option Json :=
  v.fields?.bind (·.lookup (.whole key))

/-! ## Halves of characters -/

def isHalf (n : Nat) : Bool := 0xD800 ≤ n && n < 0xE000

namespace Name

def ofCodes (codes : List Nat) : Name :=
  if codes.any isHalf then .torn codes else .whole (String.ofList (codes.map Char.ofNat))

def isWhole : Name → Bool
  | .whole _ => true
  | .torn _ => false

/-- The name as a value. -/
def value : Name → Json
  | .whole s => .str s
  | .torn codes => .torn codes

def halves : Name → List Nat
  | .whole _ => []
  | .torn codes => codes.filter isHalf

def literal : Name → String
  | .whole s => Text.quote s
  | .torn codes =>
    let quote := Text.quoteFor (codes.map Char.ofNat)
    String.ofList (quote :: (codes.flatMap (fun n =>
      if isHalf n then '\\' :: 'u' :: Text.hexDigits 4 n else Text.quoteChar quote (Char.ofNat n)) ++ [quote]))

end Name

def ofCodes (codes : List Nat) : Json :=
  (Name.ofCodes codes).value

/-- The text with the replacement character in the place of every half. -/
def mended (codes : List Nat) : String :=
  String.ofList (codes.map fun n => Char.ofNat (if isHalf n then 0xFFFD else n))

/-! ## Depth -/

mutual

def depth : Json → Nat
  | .arr items => depthOfItems items + 1
  | .obj fields => depthOfFields fields + 1
  | _ => 0

def depthOfItems : List Json → Nat
  | [] => 0
  | v :: vs => max (depth v) (depthOfItems vs)

def depthOfFields : Fields → Nat
  | [] => 0
  | (_, v) :: rest => max (depth v) (depthOfFields rest)

end

/-! ## Truth and sorts -/

def truthy : Json → Bool
  | .null => false
  | .bool b => b
  | .int n => n != 0
  | .real (.finite _ m _) => m != 0
  | .real _ => true
  | .str s => s != ""
  | .torn _ => true
  | .arr items => !items.isEmpty
  | .obj fields => !fields.isEmpty

def sort : Json → String
  | .null => "NoneType"
  | .bool _ => "bool"
  | .int _ => "int"
  | .real _ => "float"
  | .str _ | .torn _ => "str"
  | .arr _ => "list"
  | .obj _ => "dict"

/-! ## Text -/

mutual

def literal : Json → String
  | .null => "None"
  | .bool b => if b then "True" else "False"
  | .int n => toString n
  | .real x => Number.Format.plain.write x
  | .str s => Text.quote s
  | .torn codes => (Name.torn codes).literal
  | .arr items => "[" ++ ", ".intercalate (literals items) ++ "]"
  | .obj fields => "\x7b" ++ ", ".intercalate (fieldLiterals fields) ++ "\x7d"

def literals : List Json → List String
  | [] => []
  | v :: vs => literal v :: literals vs

def fieldLiterals : Fields → List String
  | [] => []
  | (k, v) :: rest => (k.literal ++ ": " ++ literal v) :: fieldLiterals rest

end

def display : Json → String
  | .str s => s
  | .torn codes => mended codes
  | v => v.literal

/-! ## Comparison -/

def number? : Json → Option (Bool × Nat × Nat)
  | .bool b => some (false, if b then 1 else 0, 1)
  | .int n => some (n < 0, n.natAbs, 1)
  | .real (.finite negative m e) => some (negative && m != 0, Number.Binary64.ratio m e)
  | _ => none

def sameNumber (a b : Bool × Nat × Nat) : Bool :=
  a.1 == b.1 && a.2.1 * b.2.2 == b.2.1 * a.2.2

mutual

/-- Two values are equal: numbers by value, truth values as zero and one, objects without regard to
the order of fields. -/
def same : Json → Json → Bool
  | .null, .null => true
  | .str s, .str t => s == t
  | .torn s, .torn t => s == t
  | .arr xs, .arr ys => sameAll xs ys
  | .obj xs, .obj ys => xs.length == ys.length && sameFields xs ys
  | .real (.infinite a), .real (.infinite b) => a == b
  | a, b =>
    match a.number?, b.number? with
    | some x, some y => sameNumber x y
    | _, _ => false

def sameAll : List Json → List Json → Bool
  | [], [] => true
  | x :: xs, y :: ys => same x y && sameAll xs ys
  | _, _ => false

def sameFields : Fields → Fields → Bool
  | [], _ => true
  | (k, v) :: rest, ys =>
    (match ys.lookup k with
      | some w => same v w
      | none => false) && sameFields rest ys

end

end Json

end ScriptWorkbench
