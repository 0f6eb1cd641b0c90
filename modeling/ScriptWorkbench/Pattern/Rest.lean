/-
A written pattern while it is read.

A backslash and the character after it are one sign. A backslash at the very end is noticed one step early,
when the sign before it has been read, and so it comes before any fault that this sign would be.
-/
import ScriptWorkbench.Pattern.Fault
import ScriptWorkbench.Text.CharacterName

namespace ScriptWorkbench.Pattern

/-- A character of a pattern, with the backslash before it if there is one. -/
inductive Sign where
  | plain (c : Char)
  | escaped (c : Char)
deriving Repr, DecidableEq

def Sign.text : Sign → List Char
  | .plain c => [c]
  | .escaped c => ['\\', c]

def signs : List Char → List Sign × Bool
  | [] => ([], false)
  | ['\\'] => ([], true)
  | '\\' :: c :: rest => (.escaped c :: (signs rest).1, (signs rest).2)
  | c :: rest => (.plain c :: (signs rest).1, (signs rest).2)

/-- How a pattern is read: the dot takes line feeds; `^` and `$` hold at every line; capital and small
letters count as the same; blanks and comments are skipped; the narrow or the wide alphabet is asked
for; repetitions are forbidden. -/
structure Options where
  dotAll : Bool
  everyLine : Bool
  anyCase : Bool
  spaced : Bool
  narrow : Bool
  wide : Bool
  plain : Bool
deriving Repr, DecidableEq

def Options.none : Options := ⟨false, false, false, false, false, false, false⟩

def Options.reading (o : Options) : Reading := ⟨o.anyCase, o.narrow⟩

/-- What has been read of a pattern, and what is left.

Of the groups, it is known how many have been opened, how wide the closed ones are, and which names
they have. A condition may name a group that is opened only later, so such groups are kept in `asked`,
with what was left there. Where something is looked for behind, `limit` is the number of groups that
were opened before it. Characters can be named as in `table`. -/
structure Rest where
  table : Text.NameTable
  options : Options
  groups : Nat
  closed : List (Nat × Widths)
  names : List (List Char × Nat)
  asked : List (Nat × Nat)
  limit : Option Nat
  signs : List Sign
  dangling : Bool

namespace Rest

def left (s : Rest) : Nat :=
  s.signs.foldl (fun n sign => n + sign.text.length) (if s.dangling then 1 else 0)

def fail {α : Type} (s : Rest) (fault : Fault) (back : Nat) : Except ReadError α :=
  .error (.at fault (s.left + back))

def next? (s : Rest) : Option Char :=
  match s.signs with
  | .plain c :: _ => some c
  | _ => Option.none

def skip (s : Rest) : Except ReadError Rest :=
  let rest := s.signs.tail
  if rest.isEmpty && s.dangling && !s.signs.isEmpty then .error (.at .danglingBackslash 1)
  else .ok { s with signs := rest }

def take (s : Rest) : Except ReadError (Option Sign × Rest) :=
  s.skip.map fun t => (s.signs.head?, t)

def skipIf (s : Rest) (c : Char) : Except ReadError (Bool × Rest) :=
  if s.next? = some c then s.skip.map fun t => (true, t) else .ok (false, s)

def takeWhile (p : Char → Bool) : (most : Nat) → Rest → Except ReadError (List Char × Rest)
  | 0, s => .ok ([], s)
  | most + 1, s =>
    match s.next? with
    | some c =>
      if p c then do
        let (cs, t) ← takeWhile p most (← s.skip)
        return (c :: cs, t)
      else .ok ([], s)
    | Option.none => .ok ([], s)

def takeUntil (closing : Char) (what : String) : (budget : Nat) → (name : List Char) → Rest →
    Except ReadError (List Char × Rest)
  | 0, _, s => s.fail (.missingName what) 0
  | budget + 1, name, s => do
    let (sign, s) ← s.take
    match sign with
    | Option.none =>
      if name.isEmpty then s.fail (.missingName what) 0
      else s.fail (.unterminatedName closing) name.length
    | some sign =>
      if sign = .plain closing then
        if name.isEmpty then s.fail (.missingName what) 1 else return (name, s)
      else takeUntil closing what budget (name ++ sign.text) s

def takeName (closing : Char) (what : String) (s : Rest) : Except ReadError (List Char × Rest) :=
  s.takeUntil closing what (s.signs.length + 1) []

end Rest

end ScriptWorkbench.Pattern
