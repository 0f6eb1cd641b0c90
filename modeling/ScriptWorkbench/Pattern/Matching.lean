/-
How patterns match.

Where several ways to match exist, the first one that lets the rest of the pattern match is taken. So matching
passes on what remains to be matched as a function, and falls back when that function finds nothing. The start
and the end of every group are marks.
-/
import ScriptWorkbench.Pattern.Basic

namespace ScriptWorkbench.Pattern

/-! ## Places -/

/-- The positions of the starts and ends of groups: group `n` starts at mark `2 n - 2` and ends at mark
`2 n - 1`. -/
abbrev Marks := List (Option Nat)

/-- Where matching has got to, with the marks made so far. -/
structure Place where
  text : List Char
  before : Option Char
  rest : List Char
  position : Nat
  marks : Marks
deriving Repr

namespace Place

def ofText (cs : List Char) : Place :=
  ⟨cs, none, cs, 0, []⟩

def step (c : Char) (rest : List Char) (p : Place) : Place :=
  { p with before := some c, rest, position := p.position + 1 }

def back? (n : Nat) (p : Place) : Option Place :=
  if n ≤ p.position then
    let q := p.position - n
    some { p with before := if q = 0 then none else p.text[q - 1]?, rest := p.text.drop q, position := q }
  else none

def pass? (r : Reading) : List Char → Place → Option Place
  | [], p => some p
  | c :: cs, p =>
    match p.rest with
    | [] => none
    | d :: rest => if sameCode r c.toNat d.toNat then pass? r cs (p.step d rest) else none

def mark (i : Nat) (p : Place) : Place :=
  if i < p.marks.length then { p with marks := p.marks.set i (some p.position) }
  else
    { p with marks := p.marks ++ List.replicate (i - p.marks.length) none ++ [some p.position] }

/-- A group can end before it starts, and such a group counts as not taken. -/
def taken? (index : Nat) (p : Place) : Option (Nat × Nat) :=
  match p.marks[2 * index - 2]?, p.marks[2 * index - 1]? with
  | some (some a), some (some b) => if a ≤ b then some (a, b) else none
  | _, _ => none

def inWord (ascii : Bool) : Option Char → Bool
  | some c => isWordCode ascii c.toNat
  | none => false

def atBoundary (wanted ascii : Bool) (p : Place) : Bool :=
  !p.text.isEmpty && (inWord ascii p.before != inWord ascii p.rest.head?) == wanted

def atStart (ofLine : Bool) (p : Place) : Bool :=
  match p.before with
  | none => true
  | some c => ofLine && c == '\n'

def atStop (ofLine : Bool) (p : Place) : Bool :=
  match p.rest with
  | [] => true
  | c :: rest => c == '\n' && (ofLine || rest.isEmpty)

def stepIf? (test : Nat → Bool) (p : Place) : Option Place :=
  match p.rest with
  | [] => none
  | c :: rest => if test c.toNat then some (p.step c rest) else none

def passAtom? (p : Place) : Atom → Option Place
  | .one wanted code r => p.stepIf? fun n => isCode r code n == wanted
  | .set s r bySmall => p.stepIf? fun n => if bySmall then s.holdsSmall r.ascii n else s.holds r.ascii n
  | .any lineFeeds => p.stepIf? fun n => lineFeeds || n != 10
  | .again index r =>
    (p.taken? index).bind fun (a, b) => p.pass? r ((p.text.drop a).take (b - a))
  | .start ofLine => if p.atStart ofLine then some p else none
  | .stop ofLine => if p.atStop ofLine then some p else none
  | .textEnd => if p.rest.isEmpty then some p else none
  | .boundary wanted ascii => if p.atBoundary wanted ascii then some p else none

/-- The place from which another way is tried, given the marks that the failed way leaves. Inside of a
repetition the marks are those from before, so that what the failed way moved is moved back; outside of it
the failed way can only have added some. -/
def retry (inside : Bool) (left : Marks) (p : Place) : Place :=
  if inside then p else { p with marks := left.take p.marks.length }

end Place

/-! ## Matching -/

/-- The place where a match ends; a failed way gives the marks that it leaves. -/
abbrev Outcome := Except Marks Place

/-- What remains to be matched. -/
abbrev Next := Place → Outcome

def Next.from (p : Place) (next : Next) : Option Place → Outcome
  | some q => next q
  | none => .error p.marks

/-- Repeat `body` as often as possible, given how many rounds are still required and allowed. The place
where the last optional round began is `last`: a round that starts there too is not tried, so the rounds are
bounded by those that are required and the characters left. With `restores`, moved marks are moved back. -/
def iterate (body : Place → Next → Outcome) (restores : Bool) :
    (budget least : Nat) → (most : Option Nat) → (last : Option Nat) → Place → Next → Outcome
  | 0, _, _, _, p, next => next p
  | budget + 1, least, most, last, p, next =>
    let fewer := most.map (· - 1)
    if 0 < least then body p fun q => iterate body restores budget (least - 1) fewer last q next
    else if most = some 0 ∨ last = some p.position then next p
    else
      match body p fun q => iterate body restores budget 0 fewer (some p.position) q next with
      | .ok q => .ok q
      | .error left => next (p.retry restores left)

def iterateSparing (body : Place → Next → Outcome) (inside : Bool) :
    (budget least : Nat) → (most : Option Nat) → (last : Option Nat) → Place → Next → Outcome
  | 0, _, _, _, p, next => next p
  | budget + 1, least, most, last, p, next =>
    let fewer := most.map (· - 1)
    if 0 < least then
      body p fun q => iterateSparing body inside budget (least - 1) fewer last q next
    else
      match next p with
      | .ok q => .ok q
      | .error left =>
        let p := p.retry inside left
        if most = some 0 ∨ last = some p.position then .error p.marks
        else body p fun q => iterateSparing body inside budget 0 fewer (some p.position) q next

/-- Marks that were moved in a round stay moved. -/
def iterateFirm (body : Place → Outcome) :
    (budget least : Nat) → (most : Option Nat) → (last : Option Nat) → Place → Outcome
  | 0, _, _, _, p => .ok p
  | budget + 1, least, most, last, p =>
    let fewer := most.map (· - 1)
    if 0 < least then (body p).bind (iterateFirm body budget (least - 1) fewer last)
    else if most = some 0 ∨ last = some p.position then .ok p
    else
      match body p with
      | .ok q => iterateFirm body budget 0 fewer (some p.position) q
      | .error _ => .ok p

def isUnit : Pattern → Bool
  | .seq (.atom a) .nothing => a.takesOne
  | .seq (.scoped body) .nothing => body.isUnit
  | _ => false

/-- Match a pattern at a place and go on; `inside` tells that a repetition that is not
firm stands around it. -/
def run (inside : Bool) : Pattern → Place → Next → Outcome
  | .nothing, p, next => next p
  | .atom a, p, next => next.from p (p.passAtom? a)
  | .seq a b, p, next => run inside a p fun q => run inside b q next
  | .either a b, p, next =>
    match run inside a p next with
    | .ok q => .ok q
    | .error left =>
      match run inside b (p.retry inside left) next with
      | .ok q => .ok q
      | .error left => .error (p.retry inside left).marks
  | .repeated body least most manner, p, next =>
    let budget := least + p.rest.length + 2
    match manner with
    | .greedy =>
      if body.isUnit then
        iterate (fun q k => run inside body q k) inside budget least most none p next
      else iterate (fun q k => run true body q k) true budget least most none p next
    | .sparing => iterateSparing (fun q k => run true body q k) inside budget least most none p next
    | .firm => (iterateFirm (fun q => run inside body q .ok) budget least most none p).bind next
  | .group index body, p, next =>
    run inside body (p.mark (2 * index - 2)) fun q => next (q.mark (2 * index - 1))
  | .scoped body, p, next => run inside body p next
  | .ifTaken index a b, p, next =>
    if (p.taken? index).isSome then run inside a p next else run inside b p next
  | .atomic body, p, next => (run inside body p .ok).bind next
  | .ahead wanted body, p, next =>
    match run inside body p .ok with
    | .ok q => if wanted then next { p with marks := q.marks } else .error q.marks
    | .error left => if wanted then .error left else next (p.retry inside left)
  | .behind wanted w body, p, next =>
    match p.back? w.least with
    | none => if wanted then .error p.marks else next p
    | some start =>
      match run inside body start .ok with
      | .ok q => if wanted then next { p with marks := q.marks } else .error q.marks
      | .error left => if wanted then .error left else next (p.retry inside left)

/-! ## Searching -/

/-- A match, and the marks of its groups. -/
structure Found where
  first : Nat
  last : Nat
  marks : Marks
deriving Repr, DecidableEq

def matchAt (pattern : Pattern) (moving : Bool) (here : Place) : Option (Found × Place) :=
  let finish : Next := fun q =>
    if moving && q.position == here.position then .error q.marks else .ok q
  match run false pattern here finish with
  | .ok q => some (⟨here.position, q.position, q.marks⟩, { q with marks := [] })
  | .error _ => none

/-- The first match at or after a place, of which `rest` is what follows. With `moving`, a match that
takes nothing at this very place does not count. -/
def searchFrom (pattern : Pattern) (moving : Bool) (rest : List Char) (p : Place) :
    Option (Found × Place) :=
  match rest with
  | [] => matchAt pattern moving p
  | c :: rest =>
    (matchAt pattern moving p).orElse fun _ => searchFrom pattern false rest (p.step c rest)

def findAllFrom (pattern : Pattern) : (budget : Nat) → (moving : Bool) → Place → List Found
  | 0, _, _ => []
  | budget + 1, moving, p =>
    match searchFrom pattern moving p.rest p with
    | none => []
    | some (m, q) => m :: findAllFrom pattern budget (m.first == m.last) q

def find? (pattern : Pattern) (cs : List Char) : Option Found :=
  (searchFrom pattern false cs (.ofText cs)).map (·.1)

def findAll (pattern : Pattern) (cs : List Char) : List Found :=
  findAllFrom pattern (2 * cs.length + 2) false (.ofText cs)

namespace Found

def group? (m : Found) (index : Nat) (cs : List Char) : Option (List Char) :=
  match m.marks[2 * index - 2]?, m.marks[2 * index - 1]? with
  | some (some a), some (some b) => some ((cs.drop a).take (b - a))
  | _, _ => none

def crosses : Marks → Bool
  | some a :: some b :: rest => b < a || crosses rest
  | _ :: _ :: rest => crosses rest
  | _ => false

def isBroken (m : Found) : Bool :=
  crosses m.marks

end Found

end ScriptWorkbench.Pattern
