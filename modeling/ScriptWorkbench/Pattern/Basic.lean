/-
Text patterns.

A sequence is a chain of `seq` that ends with `nothing`, and a choice is a chain of `either`; `together` and
`choice` build them from lists.
-/
import ScriptWorkbench.Pattern.Character

namespace ScriptWorkbench

namespace Pattern

/-- An element that is matched at one place, without another way to match. -/
inductive Atom where
  | one (wanted : Bool) (code : Nat) (reading : Reading)
  | set (set : CharSet) (reading : Reading) (bySmall : Bool)
  | any (lineFeeds : Bool)
  | again (index : Nat) (reading : Reading)
  | start (ofLine : Bool)
  | stop (ofLine : Bool)
  | textEnd
  | boundary (wanted ascii : Bool)
deriving Repr, DecidableEq

def Atom.isPlace : Atom → Bool
  | .start _ | .stop _ | .textEnd | .boundary .. => true
  | _ => false

def Atom.takesOne : Atom → Bool
  | .one .. | .set .. | .any _ => true
  | _ => false

def Atom.ofSet (r : Reading) (s : CharSet) : Atom :=
  .set s r (s.needsSmall r)

/-- How a repetition goes on: as often as possible, as rarely as possible, or as often as possible and
never fewer times. -/
inductive Manner where
  | greedy
  | sparing
  | firm
deriving Repr, DecidableEq

/-- How many characters a pattern can take, at least and at most. -/
structure Widths where
  least : Nat
  most : Nat
deriving Repr, DecidableEq

end Pattern

/-- A pattern, as it is matched. -/
inductive Pattern where
  | nothing
  | atom (a : Pattern.Atom)
  | seq (first second : Pattern)
  | either (first second : Pattern)
  | repeated (body : Pattern) (least : Nat) (most : Option Nat) (manner : Pattern.Manner)
  | group (index : Nat) (body : Pattern)
  | scoped (body : Pattern)
  | ifTaken (index : Nat) (first second : Pattern)
  | atomic (body : Pattern)
  | ahead (wanted : Bool) (body : Pattern)
  | behind (wanted : Bool) (widths : Pattern.Widths) (body : Pattern)
deriving Repr, Inhabited

namespace Pattern

/-! ## Sequence and choice -/

def together : List Pattern → Pattern
  | [] => .nothing
  | p :: rest => .seq p (together rest)

def dropAtom? (a : Atom) : List Pattern → Option (List Pattern)
  | .atom b :: rest => if a = b then some rest else none
  | _ => none

def commonFront : (first : List Pattern) → (others : List (List Pattern)) →
    List Pattern × List (List Pattern)
  | .atom a :: rest, others =>
    match others.mapM (dropAtom? a) with
    | some others =>
      let (front, left) := commonFront rest others
      (.atom a :: front, left)
    | none => ([], (.atom a :: rest) :: others)
  | first, others => ([], first :: others)

def membersOf? : List Pattern → Option (List Member)
  | [.atom (.one true code _)] => some [.code code]
  | [.atom (.set s _ _)] => if s.negated then none else some s.members
  | _ => none

def eithers : List (List Pattern) → Pattern
  | [] => .nothing
  | [p] => together p
  | p :: rest => .either (together p) (eithers rest)

/-- A choice between single characters is a set, and elements that all alternatives start with are moved in
front of the choice. Neither changes what a pattern takes, apart from capital letters beyond code point 65535,
which a set does not find. -/
def choice (r : Reading) : List (List Pattern) → List Pattern
  | [] => []
  | [p] => p
  | first :: others =>
    let (front, left) := commonFront first others
    match left.mapM membersOf? with
    | some members => front ++ [.atom (.ofSet r ⟨false, members.flatten.eraseDups⟩)]
    | none => front ++ [eithers left]

/-! ## Widths -/

def noLimit : Nat := 4294967295

namespace Widths

def clamp (w : Widths) : Widths :=
  ⟨min w.least (noLimit - 1), min w.most noLimit⟩

def add (a b : Widths) : Widths :=
  ⟨a.least + b.least, a.most + b.most⟩

def join (a b : Widths) : Widths :=
  ⟨min a.least b.least, max a.most b.most⟩

def times (a : Widths) (least : Nat) (most : Option Nat) : Widths :=
  ⟨a.least * least, a.most * most.getD noLimit⟩

def isFixed (w : Widths) : Bool :=
  w.least == w.most

end Widths

def Atom.widths (groups : List (Nat × Widths)) : Atom → Widths
  | .one .. | .set .. | .any _ => ⟨1, 1⟩
  | .again index _ => (groups.lookup index).getD ⟨0, 0⟩
  | _ => ⟨0, 0⟩

def widths (groups : List (Nat × Widths)) : Pattern → Widths
  | .atom a => a.widths groups
  | .seq a b => (widths groups a).add (widths groups b)
  | .either a b => (widths groups a).clamp.join (widths groups b).clamp
  | .repeated body least most _ => (widths groups body).clamp.times least most
  | .group _ body | .scoped body | .atomic body => (widths groups body).clamp
  | .ifTaken _ a b => (widths groups a).clamp.join (widths groups b).clamp
  | _ => ⟨0, 0⟩

/-! ## How a pattern starts -/

def openingSet? : Pattern → Option (CharSet × Reading)
  | .seq (.atom (.set s r _)) _ => if s.isCaseless r then some (s, r) else none
  | .seq (.group _ body) _ | .seq (.scoped body) _ => openingSet? body
  | _ => none

/-- Look at the first character before matching. The kinds of characters in the set that a pattern
starts with are then those of the alphabet of the whole pattern, so where the pattern itself uses the
other alphabet, the character has to belong to the set in both. -/
def guarded (ascii : Bool) (p : Pattern) : Pattern :=
  match openingSet? p with
  | some (s, r) =>
    if r.ascii = ascii then p else .seq (.ahead true (.atom (.set s ⟨false, ascii⟩ false))) p
  | none => p

end Pattern

end ScriptWorkbench
