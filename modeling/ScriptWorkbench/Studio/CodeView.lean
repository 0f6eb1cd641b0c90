/-
The view in which a text is written.

Typing does more than put characters in: brackets and quotes are closed, a new line is indented, a word that
stands for a snippet is expanded by a space.
-/
import ScriptWorkbench.Studio.Expansion
import ScriptWorkbench.Studio.Marks

namespace ScriptWorkbench.Studio

/-! ## Completion -/

/-- The completions of a view: words with descriptions, what was typed, and whether the list is shown. -/
structure Completer where
  entries : List (String × String)
  typed : String
  shown : Bool
deriving Repr, DecidableEq, Inhabited

/-- What the list shows for a completion. -/
def completionLabel (entry : String × String) : String :=
  if entry.2 == "" then entry.1 else entry.1 ++ " - " ++ entry.2

/-- The word that a label stands for. -/
def labelWord (label : String) : String :=
  match Text.indexOf? [' ', '-', ' '] label.toList with
  | some n => String.ofList (label.toList.take n)
  | none => label

/-- Words with the descriptions of their snippets. -/
def completionEntries (words : List String) (snippets : SnippetTable) : List (String × String) :=
  words.eraseDups.map fun w => (w, ((snippets.lookup w).map (·.description)).getD "")

/-! ## Views -/

/-- A text with its language, its completions and the marks in it. -/
structure CodeView where
  document : Document
  language : String
  completer : Option Completer
  marks : List Cursor
  numbered : Bool
deriving Repr, DecidableEq, Inhabited

/-- The keys that are treated apart. -/
inductive Key where
  | enter
  | tab
  | other
deriving Repr, DecidableEq, Inhabited

/-- What a view cannot do. -/
inductive ViewError where
  | noCompleter
deriving Repr, DecidableEq

def ViewError.message : ViewError → String
  | .noCompleter => "'NoneType' object has no attribute 'completionPrefix'"

namespace CodeView

variable [Toolkit]

/-- The text that is given back. -/
def contents (v : CodeView) : List Char := Toolkit.given v.document.text

/-- Offer the completions of a language; what was typed is kept. -/
def setCompleter (t : Theme) (id : String) (v : CodeView) : CodeView :=
  match (t.language id).completions with
  | [] => { v with completer := none }
  | words =>
    let entries := completionEntries words (t.snippetsOf id)
    let c := match v.completer with
      | some c => { c with entries }
      | none => ⟨entries, "", false⟩
    { v with completer := some c }

/-- Take the language that goes with a path. -/
def setLanguage (t : Theme) (path : Option String) (v : CodeView) : CodeView :=
  { v with language := t.languageOf path }.setCompleter t (t.languageOf path)

/-- Mark the line of the cursor and nothing else. -/
def markLine (v : CodeView) : CodeView :=
  { v with marks := [.place v.document.cursor.position] }

/-- An empty view for a file. -/
def ofPath (t : Theme) (path : Option String) : CodeView :=
  (CodeView.setLanguage t path ⟨.empty, "", none, [], true⟩).markLine

/-- The language that errors are looked for in. -/
def checkedLanguage : String := "opn"

/-- Mark what is wrong with the text. -/
def detect (v : CodeView) : CodeView :=
  { v with marks := if v.language = checkedLanguage then Marks.ofScript v.contents else [] }

/-- Replace the whole text. -/
def setText (text : String) (v : CodeView) : CodeView :=
  { v with document := .ofText text.toList }

/-- Place the cursor, within the text. -/
def setCursor (c : Cursor) (v : CodeView) : CodeView :=
  let bound (p : Nat) := min p v.document.text.length
  { v with document := { v.document with cursor := ⟨bound c.position, bound c.anchor⟩ } }

/-- Change the completions, if there are any. -/
def withCompleter (f : Completer → Completer) (v : CodeView) : CodeView :=
  { v with completer := v.completer.map f }

/-- Show or hide the list of completions. -/
def showList (shown : Bool) (v : CodeView) : CodeView :=
  v.withCompleter fun c => { c with shown }

/-- Note what was typed of a word. -/
def setTyped (typed : String) (v : CodeView) : CodeView :=
  v.withCompleter fun c => { c with typed }

/-- Change the text. -/
def edit (f : Document → Document) (v : CodeView) : CodeView :=
  { v with document := f v.document }

/-! ## Snippets and completions -/

/-- Replace a word by the snippet that it stands for. -/
def expand? (t : Theme) (word : String) (v : CodeView) : Option CodeView := do
  let snippet ← (t.snippetsOf v.language).lookup word
  let d ← v.document.expand? word snippet
  pure { v with document := d }

/-- What a completion adds: as many characters from its end as it is longer than what was typed. When
both are equally long that is the whole word; when the word is shorter, it loses the difference at
its start. -/
def completionTail (word : List Char) (typed : Nat) : List Char :=
  if typed < word.length then word.drop typed
  else if typed = word.length then word
  else word.drop (typed - word.length)

/-- Take a completion from the list, and expand it if it stands for a snippet. -/
def insertCompletion (t : Theme) (label : String) (v : CodeView) : Except ViewError CodeView :=
  match v.completer with
  | none => .error .noCompleter
  | some c =>
    let word := labelWord label
    let d := v.document
    let place := Toolkit.move .wordEnd d.text (d.reached .previous)
    let v := { v with document := (d.moveTo place).type (completionTail word.toList c.typed.length) }
    .ok ((v.expand? t word).getD v)

/-- Note the word at the cursor, unless there is none. -/
def noteTyped (v : CodeView) : CodeView :=
  match v.document.currentWord with
  | [] => v
  | word => v.setTyped (String.ofList word)

/-! ## Keys -/

/-- Type two characters and stay between them. -/
def typePair (opening closing : Char) (d : Document) : Document :=
  let d := d.type [opening, closing]
  d.moveTo (d.reached .previous)

/-- What a cursor selects by a step to the left. -/
def selectedBefore (d : Document) : List Char :=
  d.selected (d.cursor.dragTo (d.reached .previous))

/-- What a cursor selects by a step to the right. -/
def selectedAfter (d : Document) : List Char :=
  d.selected (d.cursor.dragTo (d.reached .next))

/-- The cursor stands between a bracket and its counterpart. -/
def betweenBrackets (d : Document) : Bool :=
  match selectedBefore d with
  | [opening] =>
    match Marks.closingOf opening with
    | some closing => selectedAfter d = [closing]
    | none => false
  | _ => false

/-- Open a block between two brackets: an empty line, indented further, and the closing bracket on a
line of its own. -/
def openBlock (d : Document) : Document :=
  let indent := indentOf d.currentLine
  let d := d.type ['\n']
  let d := d.type (List.replicate (indent + 4) ' ')
  let d := d.type ['\n']
  let d := d.type (List.replicate indent ' ')
  d.moveTo (Toolkit.move .lineEnd d.text (d.reached .up))

/-- The line below is indented further. -/
def opensBlock (line : List Char) : Bool :=
  match (Marks.trimmed line).getLast? with
  | some c => c == ':' || (Marks.closingOf c).isSome
  | none => false

/-- Begin a line that is indented like the one before, or further. -/
def newLine (d : Document) : Document :=
  let indent := indentOf d.currentLine + (if opensBlock d.currentLine then 4 else 0)
  (d.type ['\n']).type (List.replicate indent ' ')

/-- The character that a cursor steps over to the right, unless it gets to the end of a line by that. -/
def charAfter (d : Document) : List Char :=
  let p := d.reached .next
  if lineEnd d.text p = p then []
  else d.selected ⟨Toolkit.move .previous d.text p, p⟩

/-- Type an opening bracket, with its counterpart unless that comes next. -/
def typeOpening (opening closing : Char) (d : Document) : Document :=
  if charAfter d = [closing] then d.type [opening] else typePair opening closing d

/-- Type a closing bracket, unless it comes next. -/
def typeClosing (closing : Char) (d : Document) : Document :=
  if selectedAfter d = [closing] then d else d.type [closing]

/-- Type a quote: a pair, unless a backslash comes before it. The cursor first goes one place back and
one place on, and so it leaves the start of a text. -/
def typeQuote (quote : Char) (d : Document) : Document :=
  let escaped := selectedBefore d = ['\\']
  let d := d.moveTo (Toolkit.move .next d.text (d.reached .previous))
  if escaped then d.type [quote] else typePair quote quote d

/-- What a line starts with that a colon makes a header. -/
def blockWords : List String := ["if ", "else", "for "]

/-- Type a colon, and behind a header an opening brace too. -/
def typeColon (d : Document) : Document :=
  let d := d.type [':']
  if blockWords.any (fun w => w.toList.isPrefixOf (Marks.trimmed d.currentLine)) then
    (d.moveTo (d.reached .lineEnd)).type [' ', '\x7b']
  else d

/-- Expand the snippet whose word is all that is on the line. -/
def expandLine? (t : Theme) (v : CodeView) : Option CodeView :=
  let line := String.ofList (Marks.trimmed v.document.currentLine)
  (t.snippetsOf v.language).findSome? fun p => if line = p.1 then v.expand? t p.1 else none

/-- Type what a key gives. -/
def typeText (text : List Char) (v : CodeView) : CodeView :=
  match text with
  | [c] =>
    if c = '\x7b' ∨ c = '[' ∨ c = '(' then
      (v.edit (typeOpening c ((Marks.closingOf c).getD c))).detect
    else if isQuote c then v.edit (typeQuote c)
    else if c = ':' ∧ v.language = checkedLanguage then v.edit typeColon
    else if c = '\x7d' ∨ c = ']' ∨ c = ')' then (v.edit (typeClosing c)).detect
    else if c = ';' then (v.edit (·.type [c])).detect
    else v.edit (·.type [c])
  | [] => v
  | text => v.edit (·.type text)

/-- Press a key that no list and no snippet takes. -/
def pressPlain (key : Key) (text : List Char) (v : CodeView) : CodeView :=
  if key = .enter then
    if betweenBrackets v.document then v.edit openBlock else (v.edit newLine).noteTyped
  else (v.typeText text).noteTyped

/-- The list of completions is shown. -/
def listShown (v : CodeView) : Bool :=
  match v.completer with
  | some c => c.shown
  | none => false

/-- Press a key. A list that is shown takes the keys it knows; a space can expand a snippet. -/
def press (t : Theme) (key : Key) (text : String) (v : CodeView) : CodeView :=
  if v.listShown && key != .other then v
  else if text = " " then (v.expandLine? t).getD (v.pressPlain key text.toList)
  else v.pressPlain key text.toList

/-- Type characters one after another. -/
def typeAll (t : Theme) : List Char → CodeView → CodeView
  | [], v => v
  | c :: rest, v =>
    typeAll t rest (v.press t (if c = '\n' then .enter else .other) (String.singleton c))

/-- A character that ends a word. -/
def isBoundary (c : Char) : Bool :=
  " \t\n()\x7b\x7d[].,;:\"".toList.contains c || c == Char.ofNat 39

end CodeView

end ScriptWorkbench.Studio
