/-
A text and cursors in it.

A cursor has a position and an anchor; the text between them is selected. Work is often done with a copy of
the document's own cursor, which moves along when the copy changes the text.
-/
import ScriptWorkbench.Studio.Toolkit

namespace ScriptWorkbench.Studio

/-! ## Cursors -/

/-- The ends of a selection: where the cursor is, and where it has stayed. -/
structure Cursor where
  position : Nat
  anchor : Nat
deriving Repr, DecidableEq, Inhabited

namespace Cursor

def place (p : Nat) : Cursor := ⟨p, p⟩

def first (c : Cursor) : Nat := min c.position c.anchor

def last (c : Cursor) : Nat := max c.position c.anchor

def selects (c : Cursor) : Bool := c.position != c.anchor

def moveTo (_ : Cursor) (p : Nat) : Cursor := place p

def dragTo (c : Cursor) (p : Nat) : Cursor := ⟨p, c.anchor⟩

/-- The cursor after `n` characters were put in at a place: every end at or behind it moves. -/
def afterInsert (p n : Nat) (c : Cursor) : Cursor :=
  let follow (e : Nat) := if p ≤ e then e + n else e
  ⟨follow c.position, follow c.anchor⟩

/-- The cursor after the text between two places was taken out: every end behind the first is pulled back, at
most to that one. -/
def afterRemove (a b : Nat) (c : Cursor) : Cursor :=
  let follow (e : Nat) := if a < e then max a (e - (b - a)) else e
  ⟨follow c.position, follow c.anchor⟩

end Cursor

/-! ## Documents -/

/-- A stored text, and the cursor of the user in it. -/
structure Document where
  text : List Char
  cursor : Cursor
deriving Repr, DecidableEq, Inhabited

namespace Document

variable [Toolkit]

def empty : Document := ⟨[], .place 0⟩

def ofText (text : List Char) : Document := ⟨Toolkit.stored text, .place 0⟩

def insertAt (d : Document) (p : Nat) (s : List Char) : Document :=
  ⟨d.text.take p ++ s ++ d.text.drop p, d.cursor.afterInsert p s.length⟩

def removeRange (d : Document) (a b : Nat) : Document :=
  ⟨d.text.take a ++ d.text.drop b, d.cursor.afterRemove a b⟩

/-- Put a text in the place of what a cursor selects. -/
def insertWith (d : Document) (c : Cursor) (s : List Char) : Document × Cursor :=
  let s := Toolkit.stored s
  let d := if c.selects then d.removeRange c.first c.last else d
  (d.insertAt c.first s, .place (c.first + s.length))

/-- Put a text in with the cursor of the user. -/
def type (d : Document) (s : List Char) : Document :=
  let (d, c) := d.insertWith d.cursor s
  { d with cursor := c }

def deleteBack (d : Document) : Document :=
  if d.cursor.selects then d.removeRange d.cursor.first d.cursor.last
  else d.removeRange (Toolkit.move .backspace d.text d.cursor.position) d.cursor.position

def moveTo (d : Document) (p : Nat) : Document :=
  { d with cursor := d.cursor.moveTo p }

/-- The place that a move leads to from the cursor of the user. -/
def reached (d : Document) (m : Move) : Nat := Toolkit.move m d.text d.cursor.position

def selected (d : Document) (c : Cursor) : List Char :=
  Toolkit.selected (slice d.text c.first c.last)

def currentLine (d : Document) : List Char :=
  lineAt d.text d.cursor.position

/-- The cursor's position in its line. -/
def column (d : Document) : Nat :=
  Toolkit.position d.text d.cursor.position -
    Toolkit.position d.text (lineStart d.text d.cursor.position)

/-- As much of the line as the column says. -/
def beforeCursor (d : Document) : List Char := d.currentLine.take d.column

def currentWord (d : Document) : List Char :=
  d.selected ⟨d.reached .wordEnd, d.reached .wordStart⟩

def lineCount (d : Document) : Nat :=
  d.text.count '\n' + 1

end Document

end ScriptWorkbench.Studio
