/-
Which characters a pattern takes.

Characters are compared by their code points. In the wide alphabet digits, blanks and words are those of all
scripts, in the narrow one only those of ASCII.

When capital and small letters count as the same, a set is changed in advance: its members are replaced by
their small letters, and by the small letters that share a capital with them. Beyond code point 65535 members
stay as they are, so a capital letter there is never found; for a range the capital of the character is looked
up as well. A set that has no letters is left alone.
-/
import ScriptWorkbench.Text.Blank
import ScriptWorkbench.Text.CaseFold

namespace ScriptWorkbench.Pattern

/-! ## Readings -/

/-- How characters are compared: whether capital and small letters count as the same, and whether the
alphabet is the narrow one. -/
structure Reading where
  anyCase : Bool
  ascii : Bool
deriving Repr, DecidableEq

def small (ascii : Bool) (n : Nat) : Nat :=
  if ascii then Text.asciiSmall n else Text.smallCode n

def isLetterCode (ascii : Bool) (n : Nat) : Bool :=
  if ascii then Text.isAsciiLetter n else Text.changesCase n

def alike (ascii : Bool) (n : Nat) : List Nat :=
  if ascii then [n] else n :: Text.sameCapital n

def smallOf (ascii : Bool) (n : Nat) : List Nat :=
  if ascii then Text.asciiSmallOf n else Text.smallOf n

def foldLimit : Nat := 65536

/-! ## Kinds of characters -/

def isDigitCode (ascii : Bool) (n : Nat) : Bool :=
  if ascii then 48 ≤ n && n ≤ 57 else Text.isDecimal (Char.ofNat n)

def isBlankCode (ascii : Bool) (n : Nat) : Bool :=
  if ascii then (9 ≤ n && n ≤ 13) || n == 32 else Text.isBlank (Char.ofNat n)

def isWordCode (ascii : Bool) (n : Nat) : Bool :=
  if ascii then Text.isAsciiLetter n || (48 ≤ n && n ≤ 57) || n == 95
  else Text.isWordChar (Char.ofNat n)

/-! ## Sets -/

/-- What can be in a set of characters. -/
inductive Member where
  | code (n : Nat)
  | range (first last : Nat)
  | digit (wanted : Bool)
  | blank (wanted : Bool)
  | word (wanted : Bool)
deriving Repr, DecidableEq

namespace Member

def holds (ascii : Bool) (n : Nat) : Member → Bool
  | .code k => n == k
  | .range a b => a ≤ n && n ≤ b
  | .digit wanted => isDigitCode ascii n == wanted
  | .blank wanted => isBlankCode ascii n == wanted
  | .word wanted => isWordCode ascii n == wanted

def holdsSmall (ascii : Bool) (n : Nat) : Member → Bool
  | .code k =>
    let s := small ascii k
    if s < foldLimit then (alike ascii s).contains n else n == k
  | .range a b =>
    ((alike ascii n).any fun t =>
      (smallOf ascii t).any fun x => a ≤ x && x ≤ b && x < foldLimit) ||
    (foldLimit ≤ b && ((a ≤ n && n ≤ b) ||
      (a ≤ Text.capitalCode n && Text.capitalCode n ≤ b)))
  | m => m.holds ascii n

def needsSmall (ascii : Bool) : Member → Bool
  | .code k => isLetterCode ascii k || foldLimit ≤ small ascii k
  | .range a b =>
    foldLimit ≤ b ||
      (if ascii then Text.hasAsciiLetterBetween a b else Text.changesCaseBetween a b)
  | _ => false

end Member

/-- A set of characters, or all others. -/
structure CharSet where
  negated : Bool
  members : List Member
deriving Repr, DecidableEq

namespace CharSet

def holds (ascii : Bool) (s : CharSet) (n : Nat) : Bool :=
  s.members.any (·.holds ascii n) != s.negated

def holdsSmall (ascii : Bool) (s : CharSet) (n : Nat) : Bool :=
  s.members.any (·.holdsSmall ascii (small ascii n)) != s.negated

def needsSmall (r : Reading) (s : CharSet) : Bool :=
  r.anyCase && s.members.any (·.needsSmall r.ascii)

def isCaseless (r : Reading) (s : CharSet) : Bool :=
  !r.anyCase || s.members.all fun m =>
    match m with
    | .code k => !isLetterCode r.ascii k
    | m => !m.needsSmall r.ascii

end CharSet

def isCode (r : Reading) (k n : Nat) : Bool :=
  if r.anyCase && isLetterCode r.ascii k then
    (alike r.ascii (small r.ascii k)).contains (small r.ascii n)
  else n == k

def sameCode (r : Reading) (a b : Nat) : Bool :=
  if r.anyCase then small r.ascii a == small r.ascii b else a == b

end ScriptWorkbench.Pattern
