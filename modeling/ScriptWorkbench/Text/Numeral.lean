/-
Digits and other numerals, after version 14 of the Unicode character database.
-/
import ScriptWorkbench.Text.Ranges

namespace ScriptWorkbench.Text

/-- Decimal digits come in runs of ten, so the table lists the zeros only. -/
def zeroPoints : List Nat :=
  [
    1632, 1776, 1984, 2406, 2534, 2662, 2790, 2918, 3046, 3174, 3302, 3430, 3558, 3664, 3792, 3872,
    4160, 4240, 6112, 6160, 6470, 6608, 6784, 6800, 6992, 7088, 7232, 7248, 42528, 43216, 43264,
    43472, 43504, 43600, 44016, 65296, 66720, 68912, 69734, 69872, 69942, 70096, 70384, 70736,
    70864, 71248, 71360, 71472, 71904, 72016, 72784, 73040, 73120, 92768, 92864, 93008, 120782,
    120792, 120802, 120812, 120822, 123200, 123632, 125264, 130032]

def figureRanges : List (Nat × Nat) :=
  rangesFrom 128
    [50, 1, 5, 0, 4783, 8, 1640, 0, 1685, 0, 3, 5, 6, 9, 982, 8, 11, 8, 11, 8, 89, 0, 10, 8, 1, 0, 630,
    8, 1, 8, 1, 8, 58029, 3, 1052, 8, 489, 8, 57509, 10]

def numeralRanges : List (Nat × Nat) :=
  rangesFrom 128
    [60, 2, 2357, 5, 376, 5, 120, 2, 133, 6, 217, 6, 17, 8, 433, 9, 1086, 10, 881, 2, 255, 9, 2390, 50,
    2, 4, 735, 10, 9, 10, 9, 10, 79, 9, 9, 0, 640, 0, 9, 0, 9, 0, 1385, 0, 777, 0, 25, 8, 14, 2, 343, 3,
    138, 9, 30, 7, 1, 14, 32, 9, 39, 14, 29734, 9, 320, 5, 22737, 44, 12, 56, 17, 1, 341, 26, 36, 3, 29,
    0, 8, 0, 134, 4, 1154, 7, 25, 6, 39, 8, 75, 4, 22, 5, 160, 1, 2, 15, 2, 45, 68, 4, 52, 1, 30, 2, 75,
    4, 104, 7, 24, 7, 41, 6, 330, 5, 361, 21, 158, 9, 42, 3, 112, 6, 143, 10, 379, 19, 1349, 1, 430, 8,
    871, 18, 851, 20, 1067, 110, 18156, 6, 798, 22, 25673, 19, 108, 24, 5454, 8, 929, 58, 1, 2, 1, 3,
    76, 44, 1, 14, 973, 1]

def decimalValue? (c : Char) : Option Nat :=
  if c.toNat < 128 then
    if c.isDigit then some (c.toNat - 48) else none
  else
    (zeroPoints.find? fun z => z ≤ c.toNat && c.toNat ≤ z + 9).map (c.toNat - ·)

/-- A decimal digit can be written in a positional number. -/
def isDecimal (c : Char) : Bool :=
  (decimalValue? c).isSome

/-- A digit may also be a superscript or a circled figure. -/
def isDigit (c : Char) : Bool :=
  isDecimal c || hasProperty (fun _ => false) figureRanges c

/-- A numeral is any character with a numeric value. -/
def isNumeral (c : Char) : Bool :=
  isDigit c || hasProperty (fun _ => false) numeralRanges c

end ScriptWorkbench.Text
