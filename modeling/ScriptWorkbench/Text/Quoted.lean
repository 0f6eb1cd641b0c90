/-
Quoted text: the target language's string literals. A quoted text stands on one line whatever it holds.
-/
import ScriptWorkbench.Text.Visible

namespace ScriptWorkbench.Text

def hexDigit (n : Nat) : Char :=
  Nat.digitChar n

def hexDigits : (width n : Nat) → List Char
  | 0, _ => []
  | width + 1, n => hexDigits width (n / 16) ++ [hexDigit (n % 16)]

/-- Single quotes, or double quotes when the text holds a single quote and no double one. -/
def quoteFor (cs : List Char) : Char :=
  if cs.contains (Char.ofNat 39) && !cs.contains '"' then '"' else Char.ofNat 39

/-- The quote, the backslash and three blanks are written with a backslash, and a hidden character by its code
point. -/
def quoteChar (quote c : Char) : List Char :=
  if c = quote ∨ c = '\\' then ['\\', c]
  else if c = '\t' then ['\\', 't']
  else if c = '\n' then ['\\', 'n']
  else if c = '\r' then ['\\', 'r']
  else if isVisible c then [c]
  else if c.toNat < 256 then '\\' :: 'x' :: hexDigits 2 c.toNat
  else if c.toNat < 65536 then '\\' :: 'u' :: hexDigits 4 c.toNat
  else '\\' :: 'U' :: hexDigits 8 c.toNat

def quoteChars (cs : List Char) : List Char :=
  quoteFor cs :: (cs.flatMap (quoteChar (quoteFor cs)) ++ [quoteFor cs])

def quote (s : String) : String :=
  String.ofList (quoteChars s.toList)

end ScriptWorkbench.Text
