/-
Colouring a line.

Every rule of a language is searched for in the line, and a later format hides an earlier one.
-/
import ScriptWorkbench.Pattern.Matching
import ScriptWorkbench.Pattern.Reader
import ScriptWorkbench.Studio.Theme

namespace ScriptWorkbench.Studio

/-- A stretch of a line and how it is shown. -/
structure Span where
  start : Nat
  length : Nat
  color : String
  bold : Bool
  italic : Bool
deriving Repr, DecidableEq, Inhabited

/-! ## Quotes -/

def isQuote (c : Char) : Bool :=
  c == '"' || c == Char.ofNat 39

def countsAsQuote (before : Option Char) (c : Char) : Bool :=
  isQuote c && before != some '\\'

/-- Whether the number of quotes in a text is odd, given the character before it and the answer for
what lies before that. -/
def oddQuotes (before : Option Char) (odd : Bool) : List Char → Bool
  | [] => odd
  | c :: rest => oddQuotes (some c) (if countsAsQuote before c then !odd else odd) rest

def insideString (line : List Char) (place : Nat) : Bool :=
  oddQuotes none false (line.take place)

def nextQuote (before : Option Char) (quote : Option Char) (c : Char) : Option Char :=
  if countsAsQuote before c then
    match quote with
    | none => some c
    | some q => if c == q then none else some q
  else quote

def openQuoteFrom (before quote : Option Char) : List Char → Option Char
  | [] => quote
  | c :: rest => openQuoteFrom (some c) (nextQuote before quote c) rest

/-- A string is closed only by the quote that opened it. -/
def openQuote (line : List Char) (place : Nat) : Option Char :=
  openQuoteFrom none none (line.take place)

/-! ## Rules -/

/-- Why a line is not coloured. -/
inductive HighlightError where
  | unreadable (pattern : String) (error : Pattern.ReadError)
  | broken
deriving Repr, DecidableEq

def HighlightError.message : HighlightError → String
  | .unreadable pattern e => e.message pattern.toList
  | .broken => "The span of capturing group is wrong, please report a bug for the re module."

namespace Rule

def forStrings (r : Rule) : Bool :=
  r.color == "string"

/-- The rules for strings always apply. A match of another rule counts only where it starts outside of
strings, and for that the quotes before it are counted. -/
def applies (r : Rule) (line : List Char) (m : Pattern.Found) : Bool :=
  r.forStrings || !insideString line m.first

def span (t : Theme) (r : Rule) (m : Pattern.Found) : Span :=
  ⟨m.first, m.last - m.first, t.colorOf r.color, Text.occursIn "bold" r.style,
    Text.occursIn "italic" r.style⟩

def spans (table : Text.NameTable) (t : Theme) (line : List Char) (r : Rule) :
    Except HighlightError (List Span) := do
  let pattern ← (Pattern.read table .none r.pattern.toList).mapError (.unreadable r.pattern)
  let found := pattern.findAll line
  if found.any (·.isBroken) then .error .broken
  else .ok ((found.filter (r.applies line)).map (r.span t))

end Rule

def highlight (table : Text.NameTable) (t : Theme) (rules : List Rule) (line : String) :
    Except HighlightError (List Span) := do
  let parts ← rules.mapM (Rule.spans table t line.toList)
  pure parts.flatten

end ScriptWorkbench.Studio
