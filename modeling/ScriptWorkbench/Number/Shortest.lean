/-
The shortest decimal that reads back.

A floating-point number stands for every real number that rounds to it, an interval whose ends belong to it
exactly when the significand is even. Of the decimals in it with the fewest digits, the one nearest to the
number is taken. At each length only the two neighbours of the number on the decimal grid can qualify.
-/
import ScriptWorkbench.Number.Binary64

namespace ScriptWorkbench.Number

/-- Digits with a power of ten. -/
structure Decimal where
  digits : Nat
  exponent : Int
deriving Repr, DecidableEq

def scaleByTen (num den : Nat) (e : Int) : Nat × Nat :=
  if e < 0 then (num * Nat.pow 10 (-e).toNat, den) else (num, den * Nat.pow 10 e.toNat)

def raiseMagnitude (num den : Nat) : (steps : Nat) → (p : Int) → Int
  | 0, p => p
  | steps + 1, p =>
    let (n, d) := scaleByTen num den (p + 1)
    if n < d then p else raiseMagnitude num den steps (p + 1)

/-- The exponent of the leading decimal digit of `num / den`. The guess from the binary logarithm
is at most three too low. -/
def magnitude (num den : Nat) : Int :=
  raiseMagnitude num den 5 (((num.log2 : Int) - den.log2) * 30103 / 100000 - 2)

/-- The interval of a floating-point number, in units of a quarter of its last place: the number is
`4 · significand` units. Below a power of two the neighbours are twice as close. -/
def lowerBound (significand : Nat) (exponent : Int) : Nat :=
  if significand = Nat.pow 2 52 ∧ exponent > Binary64.minExponent then 4 * significand - 1
  else 4 * significand - 2

def upperBound (significand : Nat) : Nat :=
  4 * significand + 2

def readsBack (significand : Nat) (exponent : Int) (d : Nat) (e : Int) : Bool :=
  let (un, ud) := scaleByTwo 1 1 (2 - exponent)
  let (dn, dd) := scaleByTen d 1 (-e)
  let low := lowerBound significand exponent * un * dd
  let high := upperBound significand * un * dd
  let x := dn * ud
  if significand % 2 = 0 then low ≤ x && x ≤ high else low < x && x < high

/-- Only the two neighbours of a number on a decimal grid can read back. -/
def neighbour? (significand : Nat) (exponent : Int) (p : Int) (n : Nat) : Option Decimal :=
  let e : Int := p + 1 - n
  let (num, den) := Binary64.ratio significand exponent
  let (num, den) := scaleByTen num den e
  let d := num / den
  let r := num % den
  let below := readsBack significand exponent d e
  let above := readsBack significand exponent (d + 1) e
  match below, above with
  | true, true =>
    if 2 * r < den then some ⟨d, e⟩
    else if 2 * r = den then (if d % 2 = 0 then some ⟨d, e⟩ else some ⟨d + 1, e⟩)
    else some ⟨d + 1, e⟩
  | true, false => some ⟨d, e⟩
  | false, true => some ⟨d + 1, e⟩
  | false, false => none

def shortestFrom (significand : Nat) (exponent : Int) (p : Int) : (steps n : Nat) → Decimal
  | 0, n => (neighbour? significand exponent p n).getD ⟨0, 0⟩
  | steps + 1, n =>
    match neighbour? significand exponent p n with
    | some d => d
    | none => shortestFrom significand exponent p steps (n + 1)

def shortest (significand : Nat) (exponent : Int) : Decimal :=
  let (num, den) := Binary64.ratio significand exponent
  shortestFrom significand exponent (magnitude num den) 16 1

end ScriptWorkbench.Number
