/-
Properties of characters given by tables.

The ASCII part of each property is written out beside its table as a condition, and the tables start at code
point 128. Long tables give the distances between the ranges in place of their ends, as digits.
-/

set_option autoImplicit false

namespace ScriptWorkbench.Text

def digit (sign : Char) : Nat :=
  let n := sign.toNat
  if n < 34 then 0 else if n < 92 then n - 34 else if n < 123 then n - 35 else n / 2 + 26

/-- The numbers that digits stand for: each is written in a base, which is added to all of its digits but the
last. -/
def numbersFrom (base number : Nat) : List Nat → List Nat
  | [] => []
  | d :: ds =>
    if d < base then (base * number + d) :: numbersFrom base 0 ds
    else numbersFrom base (base * number + (d - base)) ds

def numbers (text : String) : List Nat :=
  numbersFrom 45 0 ((text.toList.filter (· != '\n')).map digit)

def lastDigits (n : Nat) : (count : Nat) → List Nat
  | 0 => []
  | count + 1 => n % 64 :: lastDigits (n / 64) count

def packedNumbers (rows : List Nat) : List Nat :=
  numbersFrom 32 0 (rows.flatMap (lastDigits · 64))

/-- Ranges from `start` on: for each one, how many code points are left out before it, and how many it
has behind its first. -/
def rangesFrom (start : Nat) : List Nat → List (Nat × Nat)
  | gap :: more :: rest =>
    (start + gap, start + gap + more) :: rangesFrom (start + gap + more + 1) rest
  | _ => []

def inRanges (ranges : List (Nat × Nat)) (n : Nat) : Bool :=
  ranges.any fun r => r.1 ≤ n && n ≤ r.2

def hasProperty (ascii : Char → Bool) (ranges : List (Nat × Nat)) (c : Char) : Bool :=
  if c.toNat < 128 then ascii c else inRanges ranges c.toNat

theorem hasProperty_ascii {ascii : Char → Bool} {ranges : List (Nat × Nat)} {c : Char}
    (h : c.toNat < 128) : hasProperty ascii ranges c = ascii c := by
  simp [hasProperty, h]

end ScriptWorkbench.Text
