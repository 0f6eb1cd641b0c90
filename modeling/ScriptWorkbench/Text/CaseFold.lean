/-
Letters that differ only in case, by their code points.

Two code points count as the same letter when their small letters do. The small letter is always one code
point here, and the capital letter is the first code point of the upper case.
-/
import ScriptWorkbench.Text.LetterCase

namespace ScriptWorkbench.Text

/-! ## One code point -/

def asciiSmall (n : Nat) : Nat :=
  if 65 ≤ n && n ≤ 90 then n + 32 else n

def smallCode (n : Nat) : Nat :=
  if n < 128 then asciiSmall n else if n = 304 then 105 else shiftCase lowerRuns n

def capitalCode (n : Nat) : Nat :=
  if n < 128 then (if 97 ≤ n && n ≤ 122 then n - 32 else n)
  else ((longUpper.lookup n).bind (·.head?)).getD (shiftCase upperRuns n)

def changesCase (n : Nat) : Bool :=
  smallCode n != n || capitalCode n != n

def isAsciiLetter (n : Nat) : Bool :=
  (65 ≤ n && n ≤ 90) || (97 ≤ n && n ≤ 122)

/-- Small letters that share their capital with others. -/
def sharedCapitals : List (Nat × List Nat) :=
  [
    (105, [305]), (115, [383]), (181, [956]), (305, [105]), (383, [115]), (837, [953, 8126]),
    (912, [8147]), (944, [8163]), (946, [976]), (949, [1013]), (952, [977]), (953, [837, 8126]),
    (954, [1008]), (956, [181]), (960, [982]), (961, [1009]), (962, [963]), (963, [962]),
    (966, [981]), (976, [946]), (977, [952]), (981, [966]), (982, [960]), (1008, [954]),
    (1009, [961]), (1013, [949]), (1074, [7296]), (1076, [7297]), (1086, [7298]), (1089, [7299]),
    (1090, [7300, 7301]), (1098, [7302]), (1123, [7303]), (7296, [1074]), (7297, [1076]),
    (7298, [1086]), (7299, [1089]), (7300, [1090, 7301]), (7301, [1090, 7300]), (7302, [1098]),
    (7303, [1123]), (7304, [42571]), (7777, [7835]), (7835, [7777]), (8126, [837, 953]),
    (8147, [912]), (8163, [944]), (42571, [7304]), (64261, [64262]), (64262, [64261])]

def sameCapital (n : Nat) : List Nat :=
  (sharedCapitals.lookup n).getD []

/-! ## Ranges -/

def CaseRun.meets (first last : Nat) (r : CaseRun) : Bool :=
  let ahead := (first - r.first + r.step - 1) / r.step * r.step
  r.first + ahead ≤ min last r.last

/-- No range is walked through: questions about ranges are answered from the runs of the case maps. -/
def changesCaseBetween (first last : Nat) : Bool :=
  let holds := fun n => first ≤ n && n ≤ last
  (lowerRuns ++ upperRuns).any (·.meets first last) || longUpper.any (holds ·.1) || holds 304 ||
    (first ≤ 90 && 65 ≤ last) || (first ≤ 122 && 97 ≤ last)

def hasAsciiLetterBetween (first last : Nat) : Bool :=
  (first ≤ 90 && 65 ≤ last) || (first ≤ 122 && 97 ≤ last)

def asciiSmallOf (n : Nat) : List Nat :=
  if 97 ≤ n && n ≤ 122 then [n, n - 32] else if 65 ≤ n && n ≤ 90 then [] else [n]

def smallOf (n : Nat) : List Nat :=
  let shifted := lowerRuns.filterMap fun r =>
    let k := ((n : Int) - r.shift).toNat
    if r.first ≤ k && k ≤ r.last && (k - r.first) % r.step == 0 then some k else none
  (if smallCode n = n then [n] else []) ++ (if 97 ≤ n && n ≤ 122 then [n - 32] else []) ++
    (if n = 105 then [304] else []) ++ shifted

end ScriptWorkbench.Text
