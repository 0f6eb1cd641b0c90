/-
Putting a snippet in the place of its word.

Lines after the first are indented like the line they go into, unless they are blank. A marker is a dollar
sign with digits; markers are left out, and the cursor ends where the first one stood.
-/
import ScriptWorkbench.Studio.Document
import ScriptWorkbench.Studio.Theme

namespace ScriptWorkbench.Studio

def indentOf (line : List Char) : Nat :=
  line.length - (line.dropWhile Text.isBlank).length

/-! ## Markers -/

def startsWithDigit : List Char → Bool
  | [] => false
  | c :: _ => Text.isDecimal c

def markerAt? : List Char → Option Nat
  | [] => none
  | c :: rest =>
    if c == '$' && startsWithDigit rest then some 0 else (markerAt? rest).map (· + 1)

def withoutMarkersFrom (digits : Bool) : List Char → List Char
  | [] => []
  | c :: rest =>
    if digits && Text.isDecimal c then withoutMarkersFrom true rest
    else if c == '$' && startsWithDigit rest then withoutMarkersFrom true rest
    else c :: withoutMarkersFrom false rest

def withoutMarkers (cs : List Char) : List Char :=
  withoutMarkersFrom false cs

/-! ## Expanding -/

namespace Document

variable [Toolkit]

/-- Begin a line, and indent it unless it is to be blank. -/
def typeBreak (d : Document) (indent : Nat) (line : List Char) : Document :=
  let d := d.type ['\n']
  if line.all Text.isBlank then d else d.type (List.replicate indent ' ')

/-- Type a line without its markers, and note the position of the first one. -/
def typeLine (d : Document) (marker : Option Nat) (line : List Char) : Document × Option Nat :=
  let found := (markerAt? line).map (Toolkit.position d.text d.cursor.position + ·)
  (d.type (withoutMarkers line), marker.orElse fun _ => found)

def typeLines (indent : Nat) : Document → Option Nat → List (List Char) → Document × Option Nat
  | d, marker, [] => (d, marker)
  | d, marker, line :: rest =>
    let (d, marker) := (d.typeBreak indent line).typeLine marker line
    typeLines indent d marker rest

def typeBody (d : Document) (body : List Char) : Document :=
  let indent := indentOf d.currentLine
  match Text.splitOnChar '\n' body with
  | [] => d
  | line :: rest =>
    let (d, marker) := d.typeLine none line
    let (d, marker) := typeLines indent d marker rest
    match marker with
    | some n => d.moveTo (Toolkit.placeOf d.text n)
    | none => d

def deleteBackTimes : Nat → Document → Document
  | 0, d => d
  | n + 1, d => deleteBackTimes n d.deleteBack

/-- Replace the word before the cursor by the snippet it stands for. It fails when the text before the
cursor does not end with the word, and for a snippet without a body. -/
def expand? (d : Document) (word : String) (snippet : Snippet) : Option Document :=
  if snippet.body == "" then none
  else if word.toList.isSuffixOf d.beforeCursor then
    some ((deleteBackTimes word.length d).typeBody snippet.body.toList)
  else none

end Document

end ScriptWorkbench.Studio
