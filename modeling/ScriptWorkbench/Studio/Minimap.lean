/-
Scrolling a text and its minimap together. A value of the one scroll bar is carried over to the other by its
share of the range, computed in floating-point numbers and cut to an integer.
-/
import ScriptWorkbench.Number.Binary64

namespace ScriptWorkbench.Studio.Minimap

open Number

def quotientOf : Binary64 → Bool × Nat × Nat
  | .finite negative significand exponent => (negative, Binary64.ratio significand exponent)
  | _ => (false, 0, 1)

def cut : Bool × Nat × Nat → Int
  | (negative, num, den) => if negative then -((num / den : Nat) : Int) else (num / den : Nat)

def share (negative : Bool) (num den : Nat) (range : Int) : Int :=
  let (sign, n, d) := quotientOf (.ofRatio negative num den)
  cut (quotientOf (.ofRatio (sign != decide (range < 0)) (n * range.natAbs) d))

def follow (textRange value range : Int) : Int :=
  if 0 < textRange then share (value < 0) value.natAbs textRange.natAbs range else 0

def height : Nat := 700

def jump (y : Bool × Nat × Nat) (textRange : Int) : Int :=
  share y.1 y.2.1 (y.2.2 * height) (max 1 textRange)

end ScriptWorkbench.Studio.Minimap
