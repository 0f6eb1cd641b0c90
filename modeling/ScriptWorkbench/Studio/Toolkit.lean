/-
What the window system decides about texts, cursors and tabs.

A text is a list of characters, and a place in it is a number of characters. What the window system makes of
them is up to it: which characters it stores and gives back for others, how many positions it counts for one,
where a cursor gets to by a move, which tab comes to the front when one is removed, and whether it reports a
change of the text where only the colours have changed. All of this is one argument of everything that is done
in a window, so that whatever is proved without a condition on it holds for every window system.
-/
import ScriptWorkbench.Text.Blank

namespace ScriptWorkbench.Studio

/-! ## Places in a text -/

def inLine (c : Char) : Bool := c != '\n'

/-- The place where the line around a place begins. -/
def lineStart (text : List Char) (p : Nat) : Nat :=
  p - ((text.take p).reverse.takeWhile inLine).length

/-- The place where the line around a place ends. -/
def lineEnd (text : List Char) (p : Nat) : Nat :=
  p + ((text.drop p).takeWhile inLine).length

/-- The text between two places. -/
def slice (text : List Char) (a b : Nat) : List Char :=
  (text.drop a).take (b - a)

/-- The line around a place. -/
def lineAt (text : List Char) (p : Nat) : List Char :=
  slice text (lineStart text p) (lineEnd text p)

/-! ## The window system -/

/-- The moves of a cursor. The last one leads to where a backspace takes text away from. -/
inductive Move where
  | next
  | previous
  | up
  | lineEnd
  | wordStart
  | wordEnd
  | backspace
deriving Repr, DecidableEq

/-- The answers of the window system. -/
class Toolkit where
  /-- The text that is stored for one that is put in. -/
  stored : List Char → List Char
  /-- The text that is given back for a stored one. -/
  given : List Char → List Char
  /-- The text that is given for a selected one. -/
  selected : List Char → List Char
  /-- How many positions a character takes beyond one. -/
  extra : Char → Nat
  /-- Where a move leads to from a place. -/
  move : Move → List Char → Nat → Nat
  /-- The tab in front after the one at a place is removed, with the number of tabs that are left. -/
  front : (place left : Nat) → Option Nat → Option Nat
  /-- Whether a text is reported as changed when other colours are chosen for it. -/
  reportsColours : Bool

namespace Toolkit

/-- The text that is given back for one that is put in. -/
def returned [Toolkit] (text : List Char) : List Char := given (stored text)

/-- The positions that characters take beyond one each. -/
def extras [Toolkit] : List Char → Nat
  | [] => 0
  | c :: rest => extra c + extras rest

/-- The position of a place. -/
def position [Toolkit] (text : List Char) (p : Nat) : Nat := p + extras (text.take p)

/-- The place of a position, or else the one before it. -/
def placeOf [Toolkit] : List Char → Nat → Nat
  | [], _ => 0
  | c :: rest, n => if extra c < n then placeOf rest (n - (extra c + 1)) + 1 else 0

/-! ## The plain one -/

/-- The same column one line up, or the end of that line when it is shorter. The first line has none
above it. -/
def lineUp (text : List Char) (p : Nat) : Nat :=
  let start := Studio.lineStart text p
  if start = 0 then p
  else
    let above := Studio.lineStart text (start - 1)
    min (above + (p - start)) (start - 1)

/-- Moves by single characters. -/
def plainMove : Move → List Char → Nat → Nat
  | .next, text, p => min (p + 1) text.length
  | .previous, _, p | .backspace, _, p => p - 1
  | .up, text, p => lineUp text p
  | .lineEnd, text, p => Studio.lineEnd text p
  | .wordStart, text, p => p - ((text.take p).reverse.takeWhile Text.isWordChar).length
  | .wordEnd, text, p => p + ((text.drop p).takeWhile Text.isWordChar).length

/-- The tab in front stays there. If it is the one that is removed, its neighbour on the right takes its place,
or else the one on the left. -/
def plainFront (place left : Nat) : Option Nat → Option Nat
  | none => none
  | some c => if place < c then some (c - 1) else if left = 0 then none else some (min c (left - 1))

/-- The window system in which every character is a place of its own and stays as it is, but for a line end
that is selected: it is given as a blank. -/
abbrev plain (reportsColours : Bool) : Toolkit where
  stored := id
  given := id
  selected := List.map fun c => if c == '\n' then ' ' else c
  extra _ := 0
  move := plainMove
  front := plainFront
  reportsColours

/-- The plain window system that reports a change of colours. -/
abbrev standard : Toolkit := plain true

end Toolkit

end ScriptWorkbench.Studio
