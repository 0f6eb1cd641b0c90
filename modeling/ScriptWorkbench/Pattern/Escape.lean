/-
Escapes and sets in written patterns.

A backslash makes the next character stand for itself, for a class (`\d`, `\s`, `\w` and their opposites), for
a place (`\b`, `\B`, `\A`, `\Z`), for a character given by its number or its name, or for what a group took.
-/
import ScriptWorkbench.Pattern.Rest
import ScriptWorkbench.Text.Identifier

namespace ScriptWorkbench.Pattern

/-! ## Escapes -/

/-- What a backslash and what follows it can stand for. -/
inductive Escape where
  | kind (m : Member)
  | code (n : Nat)
  | place (a : Options → Atom)
  | group (index : Nat)

def kindEscape? (c : Char) : Option Member :=
  if c = 'd' then some (.digit true)
  else if c = 'D' then some (.digit false)
  else if c = 's' then some (.blank true)
  else if c = 'S' then some (.blank false)
  else if c = 'w' then some (.word true)
  else if c = 'W' then some (.word false)
  else none

def placeEscape? (c : Char) : Option (Options → Atom) :=
  if c = 'b' then some fun o => .boundary true o.narrow
  else if c = 'B' then some fun o => .boundary false o.narrow
  else if c = 'A' then some fun _ => .start false
  else if c = 'Z' then some fun _ => .textEnd
  else none

def controlEscape? (c : Char) : Option Nat :=
  if c = 'n' then some 10
  else if c = 't' then some 9
  else if c = 'r' then some 13
  else if c = 'f' then some 12
  else if c = 'v' then some 11
  else if c = 'a' then some 7
  else if c = 'b' then some 8
  else none

def digitValue? (base : Nat) (c : Char) : Option Nat :=
  let value :=
    if c.isDigit then some (c.toNat - 48)
    else if 'a' ≤ c ∧ c ≤ 'f' then some (c.toNat - 87)
    else if 'A' ≤ c ∧ c ≤ 'F' then some (c.toNat - 55)
    else none
  value.filter (· < base)

def numberOf (base : Nat) (cs : List Char) : Nat :=
  cs.foldl (fun n c => base * n + (digitValue? base c).getD 0) 0

def takeDigits (base most : Nat) (s : Rest) : Except ReadError (List Char × Rest) :=
  s.takeWhile (fun c => (digitValue? base c).isSome) most

def hexEscape (letter : Char) (count : Nat) (s : Rest) : Except ReadError (Escape × Rest) := do
  let (digits, s) ← takeDigits 16 count s
  let text := '\\' :: letter :: digits
  if digits.length = count then
    let n := numberOf 16 digits
    if n < 0x110000 then return (.code n, s) else s.fail (.badEscape text) text.length
  else s.fail (.incompleteEscape text) text.length

def nameEscape (s : Rest) : Except ReadError (Escape × Rest) := do
  let (opened, s) ← s.skipIf '\x7b'
  if !opened then s.fail .missingBrace 0
  let (name, s) ← s.takeName '\x7d' "character name"
  match Text.codeOfName? s.table name with
  | some n => return (.code n, s)
  | none => s.fail (.unknownCharacter name) (name.length + 4)

def octalEscape (first : List Char) (most : Nat) (s : Rest) : Except ReadError (Escape × Rest) := do
  let (more, s) ← takeDigits 8 most s
  let n := numberOf 8 (first ++ more)
  let text := '\\' :: (first ++ more)
  if n ≤ 255 then return (.code n, s) else s.fail (.octalTooLarge text) text.length

def checkBehind (index : Nat) (s : Rest) : Except ReadError Unit :=
  match s.limit with
  | none => .ok ()
  | some limit =>
    if (s.closed.lookup index).isNone then s.fail .openGroup 0
    else if limit < index then s.fail .groupBehind 0
    else .ok ()

def groupEscape (digits : List Char) (s : Rest) : Except ReadError (Escape × Rest) := do
  let index := numberOf 10 digits
  if s.groups < index then s.fail (.noGroup index) digits.length
  if (s.closed.lookup index).isNone then s.fail .openGroup (digits.length + 1)
  checkBehind index s
  return (.group index, s)

/-- What a backslash and a digit stand for outside of brackets: three octal digits are a character, one
or two digits are a group. -/
def digitEscape (c : Char) (s : Rest) : Except ReadError (Escape × Rest) := do
  if c = '0' then octalEscape [c] 2 s
  else
    let (second, s) ← takeDigits 10 1 s
    let isOctal (d : Char) := (digitValue? 8 d).isSome
    if second.length = 1 && (c :: second).all isOctal && (s.next?.map isOctal).getD false then
      octalEscape (c :: second) 1 s
    else groupEscape (c :: second) s

def otherEscape (c : Char) (s : Rest) : Except ReadError (Escape × Rest) :=
  if c = 'x' then hexEscape c 2 s
  else if c = 'u' then hexEscape c 4 s
  else if c = 'U' then hexEscape c 8 s
  else if c = 'N' then nameEscape s
  else if c.isAlphanum then s.fail (.badEscape ['\\', c]) 2
  else .ok (.code c.toNat, s)

def readEscape (c : Char) (s : Rest) : Except ReadError (Escape × Rest) :=
  match placeEscape? c, kindEscape? c, controlEscape? c with
  | some p, _, _ => .ok (.place p, s)
  | _, some k, _ => .ok (.kind k, s)
  | _, _, some n => .ok (.code n, s)
  | _, _, _ => if c.isDigit then digitEscape c s else otherEscape c s

def readSetEscape (c : Char) (s : Rest) : Except ReadError (Escape × Rest) :=
  match controlEscape? c, kindEscape? c with
  | some n, _ => .ok (.code n, s)
  | _, some k => .ok (.kind k, s)
  | _, _ => if (digitValue? 8 c).isSome then octalEscape [c] 2 s else otherEscape c s

/-! ## Sets -/

def readMember (sign : Sign) (s : Rest) : Except ReadError (Member × Rest) :=
  match sign with
  | .plain c => .ok (.code c.toNat, s)
  | .escaped c =>
    (readSetEscape c s).map fun (e, s) =>
      match e with
      | .kind k => (k, s)
      | .code n => (.code n, s)
      | _ => (.code c.toNat, s)

def readRange (first last : Sign) (a b : Member) (s : Rest) : Except ReadError Member :=
  let fault {α : Type} : Except ReadError α :=
    s.fail (.badRange first.text last.text) (first.text.length + 1 + last.text.length)
  match a, b with
  | .code x, .code y => if y < x then fault else .ok (.range x y)
  | _, _ => fault

/-- The members of a set up to its closing bracket. A closing bracket in first place is a member. What
was left at the opening bracket is `start`. -/
def readMembers (start : Nat) : (budget : Nat) → (members : List Member) → Rest →
    Except ReadError (List Member × Rest)
  | 0, _, _ => .error (.at .unterminatedSet start)
  | budget + 1, members, s => do
    let (sign, s) ← s.take
    match sign with
    | none => .error (.at .unterminatedSet start)
    | some first =>
      if first = .plain ']' ∧ members ≠ [] then return (members, s)
      else
        let (a, s) ← readMember first s
        let (ranged, s) ← s.skipIf '-'
        if ranged then
          let (sign, s) ← s.take
          match sign with
          | none => .error (.at .unterminatedSet start)
          | some last =>
            if last = .plain ']' then return (members ++ [a, .code '-'.toNat], s)
            else
              let (b, s) ← readMember last s
              readMembers start budget (members ++ [← readRange first last a b s]) s
        else readMembers start budget (members ++ [a]) s

def readSet (s : Rest) : Except ReadError (Atom × Rest) := do
  let start := s.left + 1
  let (negated, s) ← s.skipIf '^'
  let (members, s) ← readMembers start (s.signs.length + 1) [] s
  match members.eraseDups with
  | [.code n] => return (.one (!negated) n s.options.reading, s)
  | members => return (.ofSet s.options.reading ⟨negated, members⟩, s)

end ScriptWorkbench.Pattern
