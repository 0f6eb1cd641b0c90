/-
How floating-point numbers are written: by the digits of the shortest decimal that reads back, around a point
from `0.0001` up to below `10 ^ 16`, and otherwise with an exponent.
-/
import ScriptWorkbench.Number.Shortest

namespace ScriptWorkbench.Number

/-- How numbers are written: where positional notation begins and ends, and two words. -/
structure Format where
  leastPositional : Int
  firstScientific : Int
  infinite : String
  nan : String

def Format.plain : Format := ⟨-4, 16, "inf", "nan"⟩

def Format.data : Format := ⟨-4, 16, "Infinity", "NaN"⟩

def stripZeros (digits : List Char) : List Char :=
  (digits.reverse.dropWhile (· == '0')).reverse

def leading (d : Decimal) : List Char × Int :=
  let digits := (toString d.digits).toList
  (stripZeros digits, d.exponent + digits.length - 1)

def positional (digits : List Char) (p : Int) : List Char :=
  if p < 0 then
    '0' :: '.' :: (List.replicate (-p - 1).toNat '0' ++ digits)
  else
    let whole := p.toNat + 1
    let padded := digits ++ List.replicate (whole - digits.length) '0'
    let fraction := padded.drop whole
    padded.take whole ++ '.' :: (if fraction.isEmpty then ['0'] else fraction)

def scientific (digits : List Char) (p : Int) : List Char :=
  let mantissa :=
    match digits with
    | [] => []
    | [d] => [d]
    | d :: ds => d :: '.' :: ds
  let size := (toString p.natAbs).toList
  mantissa ++ 'e' :: (if p < 0 then '-' else '+') ::
    ((if size.length < 2 then ['0'] else []) ++ size)

def Format.write (f : Format) : Binary64 → String
  | .nan => f.nan
  | .infinite negative => if negative then "-" ++ f.infinite else f.infinite
  | .finite negative significand exponent =>
    let sign := if negative then "-" else ""
    if significand = 0 then sign ++ "0.0"
    else
      let (digits, p) := leading (shortest significand exponent)
      let body :=
        if f.leastPositional ≤ p ∧ p < f.firstScientific then positional digits p
        else scientific digits p
      sign ++ String.ofList body

end ScriptWorkbench.Number
