/-
The written form of text patterns. Characters stand for themselves except `. ^ $ * + ? { [ ] \ | ( )`.
-/
import ScriptWorkbench.Pattern.Group

namespace ScriptWorkbench.Pattern

/-! ## Elements -/

def escapeItem (o : Options) : Escape → Item
  | .kind k => .ofAtom (.ofSet o.reading ⟨false, [k]⟩)
  | .code n => .ofAtom (.one true n o.reading)
  | .place a => .ofAtom (a o)
  | .group index => .ofAtom (.again index o.reading)

def plainItem (o : Options) (c : Char) : Item :=
  if c = '.' then .ofAtom (.any o.dotAll)
  else if c = '^' then .ofAtom (.start o.everyLine)
  else if c = '$' then .ofAtom (.stop o.everyLine)
  else .ofAtom (.one true c.toNat o.reading)

def isSkipped (c : Char) : Bool :=
  [' ', '\t', '\n', '\r', Char.ofNat 11, Char.ofNat 12].contains c

def skipLineComment : (budget : Nat) → Rest → Except ReadError Rest
  | 0, s => .ok s
  | budget + 1, s => do
    let (sign, s) ← s.take
    if sign = none ∨ sign = some (.plain '\n') then return s else skipLineComment budget s

def parts (items : List Item) : List Pattern :=
  items.foldl (fun rest i => i.parts ++ rest) []

mutual

/-- Alternatives up to the end or a closing parenthesis. With `first`, this is the start of the whole
pattern. -/
def readAlternatives : (budget : Nat) → (first : Bool) → Rest →
    Except ReadError (List (List Pattern) × Rest)
  | 0, _, s => s.fail .missingParenthesis 0
  | n + 1, first, s => do
    let (p, s) ← readSequence n first [] s
    let (more, s) ← s.skipIf '|'
    if more then
      let (others, s) ← readAlternatives n false s
      return (p :: others, s)
    else return ([p], s)

def readBranches : (budget : Nat) → (index : Nat) → Rest → Except ReadError (Pattern × Rest)
  | 0, _, s => s.fail .missingParenthesis 0
  | n + 1, index, s => do
    let (p, s) ← readSequence n false [] s
    let (more, s) ← s.skipIf '|'
    if more then
      let (q, s) ← readSequence n false [] s
      if s.next? = some '|' then s.fail .thirdBranch 0
      else return (.ifTaken index (together p) (together q), s)
    else return (.ifTaken index (together p) .nothing, s)

def readSequence : (budget : Nat) → (first : Bool) → (items : List Item) → Rest →
    Except ReadError (List Pattern × Rest)
  | 0, _, _, s => s.fail .missingParenthesis 0
  | n + 1, first, items, s => do
    if s.signs.isEmpty ∨ s.next? = some '|' ∨ s.next? = some ')' then return (parts items, s)
    let (sign, t) ← s.take
    match sign with
    | none => return (parts items, t)
    | some (.escaped c) =>
      let (e, t) ← readEscape c t
      readSequence n first (escapeItem t.options e :: items) t
    | some (.plain c) =>
      if t.options.spaced && isSkipped c then readSequence n first items t
      else if t.options.spaced && c == '#' then
        readSequence n first items (← skipLineComment (t.signs.length + 1) t)
      else if c = '[' then
        let (a, t) ← readSet t
        readSequence n first (.ofAtom a :: items) t
      else if c = '*' ∨ c = '+' ∨ c = '?' ∨ c = '\x7b' then
        match ← readRepeat c t with
        | none => readSequence n first (plainItem t.options c :: items) t
        | some (bounds, u) =>
          let (items, u) ← repeatLast items bounds t.left u
          readSequence n first items u
      else if c = '(' then
        let (opening, inner) ← readOpening (first && items.isEmpty) s.left t
        match opening with
        | .skipped | .settings => readSequence n first items inner
        | .whole a => readSequence n first (.ofAtom a :: items) inner
        | opening =>
          let (body, after) ← match opening with
            | .condition index => (readBranches n index inner).map fun (p, s) => ([p], s)
            | _ => (readAlternatives n false (enter opening inner)).map fun (ps, s) =>
                (choice inner.options.reading ps, s)
          let (closed, after) ← after.skipIf ')'
          if closed then
            let (item, after) := closeGroup opening inner body after
            readSequence n first (item :: items) { after with options := t.options }
          else .error (.at .missingParenthesis s.left)
      else readSequence n first (plainItem t.options c :: items) t

end

/-! ## Whole patterns -/

def refusal? (plain : Bool) : Pattern → Option ReadError
  | .seq a b => (refusal? plain a).or (refusal? plain b)
  | .either a b => (refusal? plain a).or (refusal? plain b)
  | .ifTaken _ a b => (refusal? plain a).or (refusal? plain b)
  | .repeated body _ _ manner =>
    if plain then some (.forbiddenRepetition manner) else refusal? plain body
  | .behind _ w body => if w.isFixed then refusal? plain body else some .variableWidth
  | .group _ body | .scoped body | .atomic body | .ahead _ body => refusal? plain body
  | _ => none

def widthLimit : Nat := 2147483648

def looksTooFar : Pattern → Bool
  | .seq a b | .either a b | .ifTaken _ a b => looksTooFar a || looksTooFar b
  | .behind _ w body => widthLimit ≤ w.least || looksTooFar body
  | .repeated body .. | .group _ body | .scoped body | .atomic body | .ahead _ body => looksTooFar body
  | _ => false

def read (table : Text.NameTable) (o : Options) (text : List Char) : Except ReadError Pattern := do
  let (all, dangling) := signs text
  if all.isEmpty && dangling then .error (.at .danglingBackslash 1)
  let (ps, s) ← readAlternatives (2 * text.length + 3) true
    ⟨table, o, 0, [], [], [], none, all, dangling⟩
  if s.options.narrow && s.options.wide then .error .twoAlphabets
  if !s.signs.isEmpty then s.fail .unbalancedParenthesis 0
  if let some (index, left) := s.asked.find? (s.groups < ·.1) then .error (.at (.noGroup index) left)
  let p := together (choice s.options.reading ps)
  if let some e := refusal? s.options.plain p then .error e
  if looksTooFar p then .error .tooWide
  return p.guarded s.options.narrow

end ScriptWorkbench.Pattern
