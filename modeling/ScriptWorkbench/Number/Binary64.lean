/-
Binary floating-point numbers with a 53-bit significand.

A finite number is `± significand · 2 ^ exponent`, with a significand below `2 ^ 53`, which is at least `2 ^
52` unless the exponent is the least one, `-1074`. Rounding takes an exact quotient to the nearest such
number, a tie going to the even significand.
-/

set_option autoImplicit false

namespace ScriptWorkbench.Number

/-- A floating-point number: a sign, a significand and a power of two, or none. -/
inductive Binary64 where
  | finite (negative : Bool) (significand : Nat) (exponent : Int)
  | infinite (negative : Bool)
  | nan
deriving Repr, DecidableEq, Inhabited

def divRoundEven (num den : Nat) : Nat :=
  let q := num / den
  let r := num % den
  if 2 * r < den then q
  else if 2 * r = den then (if q % 2 = 0 then q else q + 1)
  else q + 1

def scaleByTwo (num den : Nat) (e : Int) : Nat × Nat :=
  if e < 0 then (num * Nat.pow 2 (-e).toNat, den) else (num, den * Nat.pow 2 e.toNat)

namespace Binary64

def minExponent : Int := -1074

def maxExponent : Int := 971

def zero (negative : Bool) : Binary64 := .finite negative 0 minExponent

def exponentOf (num den : Nat) : Int :=
  let e : Int := (num.log2 : Int) - (den.log2 : Int) - 52
  let (n, d) := scaleByTwo num den e
  max (if n < d * Nat.pow 2 52 then e - 1 else e) minExponent

/-- The number nearest to a quotient; a tie goes to the even significand. -/
def ofRatio (negative : Bool) (num den : Nat) : Binary64 :=
  if num = 0 then zero negative
  else
    let e := exponentOf num den
    let (n, d) := scaleByTwo num den e
    let m := divRoundEven n d
    let (m, e) := if m = Nat.pow 2 53 then (Nat.pow 2 52, e + 1) else (m, e)
    if e > maxExponent then .infinite negative else .finite negative m e

def ofInt (n : Int) : Binary64 :=
  ofRatio (n < 0) n.natAbs 1

/-- The floating-point number nearest to `± digits · 10 ^ exponent`. Exponents that put the number
beyond every finite number, or next to zero, are settled without computing the power. -/
def ofDecimal (negative : Bool) (digits : Nat) (exponent : Int) : Binary64 :=
  let size : Int := (digits.log2 : Int) * 3 / 10 + exponent
  if digits = 0 then zero negative
  else if size > 400 then .infinite negative
  else if size < -800 then zero negative
  else if exponent < 0 then ofRatio negative digits (Nat.pow 10 (-exponent).toNat)
  else ofRatio negative (digits * Nat.pow 10 exponent.toNat) 1

def ratio (significand : Nat) (exponent : Int) : Nat × Nat :=
  scaleByTwo significand 1 (-exponent)

def inUnits (unit : Int) (negative : Bool) (significand : Nat) (exponent : Int) : Int :=
  let n : Int := (significand * Nat.pow 2 (exponent - unit).toNat : Nat)
  if negative then -n else n

def add : Binary64 → Binary64 → Binary64
  | .nan, _ | _, .nan => .nan
  | .infinite a, .infinite b => if a = b then .infinite a else .nan
  | .infinite a, _ => .infinite a
  | _, .infinite b => .infinite b
  | .finite a m e, .finite b n f =>
    let unit := min e f
    let sum := inUnits unit a m e + inUnits unit b n f
    if sum = 0 then zero (a && b)
    else
      let (num, den) := ratio sum.natAbs unit
      ofRatio (sum < 0) num den

def negate : Binary64 → Binary64
  | .finite a m e => .finite (!a) m e
  | .infinite a => .infinite (!a)
  | .nan => .nan

end Binary64

end ScriptWorkbench.Number
