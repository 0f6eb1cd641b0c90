/-
Repetitions and groups in written patterns.
-/
import ScriptWorkbench.Pattern.Escape

namespace ScriptWorkbench.Pattern

/-! ## Repetition -/

/-- What an item is to a sign of repetition behind it. -/
inductive ItemKind where
  | element
  | place
  | repetition
deriving Repr, DecidableEq

/-- An element of a sequence. A group that is made for nothing but its parentheses has several parts,
which become elements of the sequence around it. -/
structure Item where
  parts : List Pattern
  kind : ItemKind

def Item.plain (p : Pattern) : Item := ⟨[p], .element⟩

def Item.ofAtom (a : Atom) : Item := ⟨[.atom a], if a.isPlace then .place else .element⟩

def readRounds (digits : List Char) : Except ReadError (Option Nat) :=
  if digits.isEmpty then .ok none
  else if Number.maxDigits < digits.length then .error (.tooManyDigits digits.length)
  else if noLimit ≤ numberOf 10 digits then .error .tooManyRounds
  else .ok (some (numberOf 10 digits))

def readBounds (s : Rest) : Except ReadError (Option ((Nat × Option Nat) × Rest)) := do
  if s.next? = some '\x7d' then return none
  let many := s.signs.length
  let (low, t) ← takeDigits 10 many s
  let (comma, t) ← t.skipIf ','
  let (high, t) ← if comma then takeDigits 10 many t else pure (low, t)
  let (closed, t) ← t.skipIf '\x7d'
  if !closed then return none
  let least := (← readRounds low).getD 0
  let most ← readRounds high
  if most.any (· < least) then t.fail .badBounds (s.left - t.left)
  else return some ((least, most), t)

/-- A repetition mark with a question mark behind it repeats as rarely as possible, and with a plus sign as
often as possible and never fewer times. -/
def readRepeat (c : Char) (s : Rest) : Except ReadError (Option ((Nat × Option Nat) × Rest)) :=
  if c = '*' then .ok (some ((0, none), s))
  else if c = '+' then .ok (some ((1, none), s))
  else if c = '?' then .ok (some ((0, some 1), s))
  else readBounds s

def repeatLast (items : List Item) (bounds : Nat × Option Nat) (here : Nat) (s : Rest) :
    Except ReadError (List Item × Rest) :=
  match items with
  | [] => .error (.at .nothingToRepeat (here + 1))
  | last :: others =>
    if last.kind = .place then .error (.at .nothingToRepeat (here + 1))
    else if last.kind = .repetition then .error (.at .multipleRepeat (here + 1))
    else do
      let (sparing, s) ← s.skipIf '?'
      let (firm, s) ← if sparing then pure (false, s) else s.skipIf '+'
      let manner := if sparing then .sparing else if firm then .firm else .greedy
      let p := Pattern.repeated (together last.parts) bounds.1 bounds.2 manner
      return (⟨[p], .repetition⟩ :: others, s)

/-! ## Groups -/

def flagOf? (c : Char) : Option (Options → Bool → Options) :=
  if c = 'i' then some fun o b => { o with anyCase := b }
  else if c = 'm' then some fun o b => { o with everyLine := b }
  else if c = 's' then some fun o b => { o with dotAll := b }
  else if c = 'x' then some fun o b => { o with spaced := b }
  else if c = 'a' then some fun o b => { o with narrow := b }
  else if c = 'u' then some fun o b => { o with wide := b }
  else if c = 't' then some fun o b => { o with plain := b }
  else if c = 'L' then some fun o _ => o
  else none

def isAlphabetFlag (c : Char) : Bool :=
  c == 'a' || c == 'u' || c == 'L'

def readFlag (otherwise : Fault) (ends : List Char) (s : Rest) : Except ReadError (Char × Rest) := do
  let (sign, s) ← s.take
  match sign with
  | none => s.fail otherwise 0
  | some (.escaped _) => s.fail otherwise 2
  | some (.plain c) =>
    if ends.contains c || (flagOf? c).isSome then return (c, s)
    else s.fail (if Text.isLetter c then .unknownFlag else otherwise) 1

def readOn : (budget : Nat) → (letters : List Char) → (c : Char) → Rest →
    Except ReadError (List Char × Char × Rest)
  | 0, _, _, s => s.fail .missingFlagEnd 0
  | budget + 1, letters, c, s => do
    if [')', '-', ':'].contains c then return (letters, c, s)
    if c = 'L' then s.fail .localFlag 0
    if (c = 'a' ∧ 'u' ∈ letters) ∨ (c = 'u' ∧ 'a' ∈ letters) then s.fail .incompatibleFlags 0
    let (d, s) ← readFlag .missingFlagEnd [')', '-', ':'] s
    readOn budget (letters ++ [c]) d s

def readOff : (budget : Nat) → (letters : List Char) → (c : Char) → Rest →
    Except ReadError (List Char × Rest)
  | 0, _, _, s => s.fail .missingColon 0
  | budget + 1, letters, c, s => do
    if c = ':' then return (letters, s)
    if isAlphabetFlag c then s.fail .lastingFlag 0
    let (d, s) ← readFlag .missingColon [':'] s
    readOff budget (letters ++ [c]) d s

def setFlags (o : Options) (letters : List Char) (value : Bool) : Options :=
  letters.foldl (fun o c => ((flagOf? c).map fun f => f o value).getD o) o

def scopedOptions (o : Options) (on off : List Char) : Options :=
  let o := if on.any isAlphabetFlag then { o with narrow := false, wide := false } else o
  setFlags (setFlags o on true) off false

/-- What a parenthesis opens. -/
inductive Opening where
  | skipped
  | settings
  | whole (a : Atom)
  | numbered
  | loose
  | wrapped (f : Pattern → Pattern)
  | behind (wanted : Bool)
  | condition (index : Nat)

def readName (closing : Char) (s : Rest) : Except ReadError (List Char × Rest) := do
  let (name, s) ← s.takeName closing "group name"
  if Text.isIdentifier name then return (name, s) else s.fail (.badName name) (name.length + 1)

def openGroup (s : Rest) : Rest :=
  { s with groups := s.groups + 1 }

def readNamed (s : Rest) : Except ReadError (Opening × Rest) := do
  let (sign, s) ← s.take
  match sign with
  | none => s.fail .endOfPattern 0
  | some (.plain '<') =>
    let (name, s) ← readName '>' s
    match s.names.lookup name with
    | some earlier => s.fail (.doubleName name (s.groups + 1) earlier) (name.length + 1)
    | none => return (.numbered, { openGroup s with names := (name, s.groups + 1) :: s.names })
  | some (.plain '=') =>
    let (name, s) ← readName ')' s
    match s.names.lookup name with
    | none => s.fail (.unknownName name) (name.length + 1)
    | some index =>
      if (s.closed.lookup index).isNone then s.fail .openGroup (name.length + 1)
      checkBehind index s
      return (.whole (.again index s.options.reading), s)
  | some sign => s.fail (.unknownExtension ('P' :: sign.text)) (sign.text.length + 2)

def skipComment (start : Nat) : (budget : Nat) → Rest → Except ReadError Rest
  | 0, _ => .error (.at .unterminatedComment start)
  | budget + 1, s => do
    let (sign, s) ← s.take
    match sign with
    | none => .error (.at .unterminatedComment start)
    | some sign => if sign = .plain ')' then return s else skipComment start budget s

def readBehind (s : Rest) : Except ReadError (Opening × Rest) := do
  let (sign, s) ← s.take
  match sign with
  | none => s.fail .endOfPattern 0
  | some (.plain '=') => return (.behind true, s)
  | some (.plain '!') => return (.behind false, s)
  | some sign => s.fail (.unknownExtension ('<' :: sign.text)) (sign.text.length + 2)

/-- A group with options, of which the first sign is `c`. Options for all that follows can stand only
at the very start, and the one that forbids repetitions can stand nowhere else. -/
def readOptions (c : Char) (atStart : Bool) (start : Nat) (s : Rest) :
    Except ReadError (Opening × Rest) := do
  let many := s.signs.length + 2
  let (on, final, s) ← readOn many [] c s
  if final = ')' then
    if atStart then return (.settings, { s with options := setFlags s.options on true })
    else .error (.at .lateFlags start)
  else
    if on.contains 't' then s.fail .scopedWholeFlag 1
    let (off, s) ← if final = '-' then do
        let (d, s) ← readFlag .missingFlag [] s
        readOff many [] d s
      else pure ([], s)
    if off.contains 't' then s.fail .lastingWholeFlag 1
    if on.any off.contains then s.fail .contradictoryFlags 1
    return (.wrapped .scoped, { s with options := scopedOptions s.options on off })

def groupLimit : Nat := 1073741823

def readCondition (s : Rest) : Except ReadError (Opening × Rest) := do
  let (name, s) ← s.takeName ')' "group name"
  let back := name.length + 1
  if Text.isIdentifier name then
    match s.names.lookup name with
    | none => s.fail (.unknownName name) back
    | some index =>
      checkBehind index s
      return (.condition index, s)
  else
    match Number.readInt (String.ofList name) with
    | .ok (.ofNat 0) => s.fail .zeroGroup back
    | .ok (.ofNat index) =>
      if groupLimit ≤ index then s.fail (.noGroup index) back
      checkBehind index s
      return (.condition index, { s with asked := s.asked ++ [(index, s.left + back)] })
    | _ => s.fail (.badName name) back

/-- A question mark after an opening parenthesis makes a group of another sort. -/
def readOpening (atStart : Bool) (start : Nat) (s : Rest) : Except ReadError (Opening × Rest) := do
  let (special, s) ← s.skipIf '?'
  if !special then return (.numbered, openGroup s)
  let (sign, s) ← s.take
  match sign with
  | none => s.fail .endOfPattern 0
  | some (.plain c) =>
    if c = 'P' then readNamed s
    else if c = ':' then return (.loose, s)
    else if c = '#' then return (.skipped, ← skipComment start (s.signs.length + 1) s)
    else if c = '=' then return (.wrapped (.ahead true), s)
    else if c = '!' then return (.wrapped (.ahead false), s)
    else if c = '<' then readBehind s
    else if c = '(' then readCondition s
    else if c = '>' then return (.wrapped .atomic, s)
    else if c = '-' ∨ (flagOf? c).isSome then readOptions c atStart start s
    else s.fail (.unknownExtension [c]) 2
  | some sign => s.fail (.unknownExtension sign.text) (sign.text.length + 1)

def enter (o : Opening) (s : Rest) : Rest :=
  match o with
  | .behind _ => { s with limit := s.limit.or (some s.groups) }
  | _ => s

/-- The element that a body in a group makes, and what is left after it, given what was left before
its body. The latest group there is the one that is closed. -/
def closeGroup (o : Opening) (inner : Rest) (body : List Pattern) (s : Rest) : Item × Rest :=
  let p := together body
  let w := (p.widths s.closed).clamp
  match o with
  | .numbered => (.plain (.group inner.groups p), { s with closed := (inner.groups, w) :: s.closed })
  | .wrapped f => (.plain (f p), s)
  | .behind wanted => (.plain (.behind wanted w p), { s with limit := inner.limit })
  | .loose => (⟨body, .element⟩, s)
  | _ => (.plain p, s)

end ScriptWorkbench.Pattern
