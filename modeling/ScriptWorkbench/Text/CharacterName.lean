/-
Characters by their names.

Most names stand in a table, which belongs to the character database that the workbench runs with, and is
given here. In them capital and small letters count as the same. The names of unified ideographs and of Korean
syllables are made up, and have to be written in capital letters.
-/
import ScriptWorkbench.Text.Search

namespace ScriptWorkbench.Text

/-- The code points of the names that stand in a table. They are looked for in capital letters. -/
abbrev NameTable := List Char → Option Nat

def NameTable.empty : NameTable := fun _ => none

/-! ## Numbered names -/

def numberedNames : List (String × Nat × Nat) :=
  [("CJK COMPATIBILITY IDEOGRAPH-", 63744, 64109), ("CJK COMPATIBILITY IDEOGRAPH-", 64112, 64217),
    ("CJK COMPATIBILITY IDEOGRAPH-", 194560, 195101),
    ("KHITAN SMALL SCRIPT CHARACTER-", 101120, 101589), ("NUSHU CHARACTER-", 110960, 111355)]

def ideographs : List (Nat × Nat) :=
  [(13312, 19903), (19968, 40959), (131072, 173791), (173824, 177976), (177984, 178205),
    (178208, 183969), (183984, 191456), (196608, 201546)]

def hexNumber (cs : List Char) : Nat :=
  cs.foldl (fun n c => 16 * n + if c.isDigit then c.toNat - 48 else c.toNat - 55) 0

def codeDigits? (cs : List Char) : Option Nat :=
  if (cs.length = 4 ∨ cs.length = 5) ∧
      cs.all (fun c => c.isDigit || ('A'.toNat ≤ c.toNat && c.toNat ≤ 'F'.toNat)) then
    some (hexNumber cs)
  else none

/-- The names of unified ideographs end in their code points. -/
def numberedCode? (wanted : List Char) : Option Nat :=
  numberedNames.findSome? fun (start, first, last) =>
    (dropPrefix? start.toList wanted).bind fun digits =>
      (codeDigits? digits).filter fun n =>
        first ≤ n && n ≤ last && (digits.length == 4 || 65536 ≤ n)

/-! ## Korean syllables -/

def leadingSounds : List String :=
  ["G", "GG", "N", "D", "DD", "R", "M", "B", "BB", "S", "SS", "", "J", "JJ", "C", "K", "T", "P", "H"]

def vowelSounds : List String :=
  ["A", "AE", "YA", "YAE", "EO", "E", "YEO", "YE", "O", "WA", "WAE", "OE", "YO", "U", "WEO", "WE",
    "WI", "YU", "EU", "YI", "I"]

def closingSounds : List String :=
  ["", "G", "GG", "GS", "N", "NJ", "NH", "D", "L", "LG", "LM", "LB", "LS", "LT", "LP", "LH", "M",
    "B", "BS", "S", "SS", "NG", "J", "C", "K", "T", "P", "H"]

/-- The number of the longest sound that a text starts with, and what follows it. The number of the
first sound is `index`. -/
def takeSound (cs : List Char) : (sounds : List String) → (index : Nat) → Option (Nat × List Char)
  | [], _ => none
  | s :: sounds, index =>
    match dropPrefix? s.toList cs, takeSound cs sounds (index + 1) with
    | some rest, some (i, shorter) =>
      if shorter.length < rest.length then some (i, shorter) else some (index, rest)
    | some rest, none => some (index, rest)
    | none, other => other

/-- The names of Korean syllables are put together from those of their sounds. -/
def syllableCode? (cs : List Char) : Option Nat := do
  let (l, cs) ← takeSound cs leadingSounds 0
  let (v, cs) ← takeSound cs vowelSounds 0
  let (t, cs) ← takeSound cs closingSounds 0
  if cs.isEmpty then some (44032 + (l * 21 + v) * 28 + t) else none

/-! ## All names -/

def codeOfName? (table : NameTable) (name : List Char) : Option Nat :=
  match dropPrefix? "HANGUL SYLLABLE ".toList name, dropPrefix? "CJK UNIFIED IDEOGRAPH-".toList name with
  | some syllable, _ => syllableCode? syllable
  | _, some digits =>
    (codeDigits? digits).filter fun n => ideographs.any fun r => r.1 ≤ n && n ≤ r.2
  | _, _ =>
    let wanted := name.map Char.toUpper
    (numberedCode? wanted).orElse fun _ => table wanted

end ScriptWorkbench.Text
