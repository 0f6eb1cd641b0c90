/-
Scanning a source text into tokens.

Each part of the scanner splits a list of characters into what it takes and what is left, so that the text of
a token and the rest of the source are always two pieces of one list.
-/
import ScriptWorkbench.Text.Blank
import ScriptWorkbench.Token.Basic

namespace ScriptWorkbench.Token

/-- Why a source is not scanned. -/
inductive ScanError where
  | unexpected (c : Char) (position : Position)
  | unterminated (position : Position)
  | badEscape (c : Char) (position : Position)
  | ranOff
deriving Repr, DecidableEq

def Position.describe (p : Position) : String :=
  s!" at line {p.line}, column {p.column}"

def ScanError.message : ScanError → String
  | .unexpected c p => s!"Unexpected character '{c}'" ++ p.describe
  | .unterminated p => "Unterminated string" ++ p.describe
  | .badEscape c p => s!"Unsupported escape sequence '\\{c}'" ++ p.describe
  | .ranOff => "string index out of range"

/-! ## Between tokens -/

def isGap (c : Char) : Bool :=
  c == ' ' || c == '\t' || c == '\r' || c == '\n'

def Position.afterGap (p : Position) (c : Char) : Position :=
  if c = '\n' then p.nextLine else p.advance 1

def skipLine (p : Position) : List Char → Position × List Char
  | [] => (p, [])
  | c :: cs => if c = '\n' then (p.nextLine, cs) else skipLine (p.advance 1) cs

/-- Pass over the rest of a comment that ends with `*/`. A line feed inside it puts the next
character in the second column of its line. -/
def skipBlock (p : Position) : List Char → Except ScanError (Position × List Char)
  | [] => .error .ranOff
  | '*' :: '/' :: cs => .ok (p.advance 2, cs)
  | c :: cs => skipBlock (if c = '\n' then p.nextLine.advance 1 else p.advance 1) cs

theorem skipLine_length (p : Position) (cs : List Char) : (skipLine p cs).2.length ≤ cs.length := by
  fun_induction skipLine p cs with
  | case1 => exact Nat.le_refl _
  | case2 => exact Nat.le_succ _
  | case3 _ _ _ _ ih => exact Nat.le_succ_of_le ih

theorem skipBlock_length {p : Position} {cs : List Char} {r : Position × List Char}
    (h : skipBlock p cs = .ok r) : r.2.length < cs.length := by
  fun_induction skipBlock p cs with
  | case1 => simp at h
  | case2 p cs => injection h with h; subst h; simp only [List.length_cons]; omega
  | case3 p c cs _ ih => have := ih h; simp only [List.length_cons]; omega

/-! ## Lexemes -/

def unescape? (c : Char) : Option Char :=
  if c = 'n' then some '\n'
  else if c = 't' then some '\t'
  else if c = '"' then some '"'
  else if c = '\\' then some '\\'
  else none

/-- What a step of the scanner makes, where it ends, and what is left of the source. -/
structure Piece (α : Type) where
  value : α
  position : Position
  rest : List Char

/-- The value of a string literal up to its closing quote. Line feeds are allowed in it and do not
count as lines. -/
def stringTail (start p : Position) : List Char → Except ScanError (Piece (List Char))
  | [] => .error (.unterminated start)
  | '\\' :: cs =>
    match cs with
    | [] => .error .ranOff
    | e :: cs =>
      match unescape? e with
      | none => .error (.badEscape e (p.advance 2))
      | some c => (stringTail start (p.advance 2) cs).map fun s => ⟨c :: s.value, s.position, s.rest⟩
  | c :: cs =>
    if c = '"' then .ok ⟨[], p.advance 1, cs⟩
    else (stringTail start (p.advance 1) cs).map fun s => ⟨c :: s.value, s.position, s.rest⟩

def isNameChar (c : Char) : Bool :=
  Text.isAlphanumeric c || c == '_'

def numberTail (point : Bool) : List Char → List Char × List Char
  | [] => ([], [])
  | c :: cs =>
    if c = '.' ∧ ¬point ∧ cs.head? ≠ some '.' then
      let (taken, rest) := numberTail true cs
      (c :: taken, rest)
    else if Text.isDigit c then
      let (taken, rest) := numberTail point cs
      (c :: taken, rest)
    else ([], c :: cs)

def doubleSymbol? (c : Char) : List Char → Option (Char × Kind)
  | [] => none
  | d :: _ => (doubleSymbols.lookup (c, d)).map (d, ·)

/-- What begins a token decides where it ends. -/
def lexeme (p : Position) (c : Char) (cs : List Char) : Except ScanError (Piece Token) :=
  match doubleSymbol? c cs with
  | some (d, kind) => .ok ⟨⟨kind, String.ofList [c, d], p⟩, p.advance 2, cs.drop 1⟩
  | none =>
    match symbols.lookup c with
    | some kind => .ok ⟨⟨kind, String.ofList [c], p⟩, p.advance 1, cs⟩
    | none =>
      if Text.isLetter c || c == '_' then
        let word := c :: cs.takeWhile isNameChar
        let text := String.ofList word
        .ok ⟨⟨wordKind text, text, p⟩, p.advance word.length, cs.dropWhile isNameChar⟩
      else if Text.isDigit c then
        let (taken, rest) := numberTail false cs
        let word := c :: taken
        .ok ⟨⟨.number, String.ofList word, p⟩, p.advance word.length, rest⟩
      else if c = '"' then
        (stringTail p (p.advance 1) cs).map fun s =>
          ⟨⟨.text, String.ofList s.value, p⟩, s.position, s.rest⟩
      else .error (.unexpected c p)

/-- The next token of a text that starts with neither a blank nor a line comment. Comments between
`/*` and `*/` are passed over first, and the token has to follow them at once. -/
def nextToken (p : Position) (cs : List Char) : Except ScanError (Piece Token) :=
  match cs with
  | [] => .error .ranOff
  | '/' :: '*' :: cs' =>
    match _h : skipBlock (p.advance 2) cs' with
    | .error e => .error e
    | .ok r => nextToken r.1 r.2
  | c :: cs => lexeme p c cs
termination_by cs.length
decreasing_by
  have := skipBlock_length _h
  simp only [List.length_cons]
  omega

/-! ## What is left is shorter -/

theorem stringTail_length {start p : Position} {cs : List Char} {s : Piece (List Char)}
    (h : stringTail start p cs = .ok s) : s.rest.length < cs.length := by
  fun_induction stringTail start p cs generalizing s with
  | case1 => simp at h
  | case2 => simp at h
  | case3 => simp at h
  | case4 p e cs c _ ih =>
    simp only [Except.map] at h
    split at h <;> simp at h
    next v hv => subst h; have := ih hv; simp only [List.length_cons]; omega
  | case5 p cs => injection h with h; subst h; simp
  | case6 p c cs _ _ ih =>
    simp only [Except.map] at h
    split at h <;> simp at h
    next v hv => subst h; have := ih hv; simp only [List.length_cons]; omega

theorem numberTail_length (point : Bool) (cs : List Char) :
    (numberTail point cs).2.length ≤ cs.length := by
  fun_induction numberTail point cs <;> simp_all <;> omega

theorem lexeme_length {p : Position} {c : Char} {cs : List Char} {t : Piece Token}
    (h : lexeme p c cs = .ok t) : t.rest.length ≤ cs.length := by
  unfold lexeme at h
  split at h
  · injection h with h; subst h; simp
  · split at h
    · injection h with h; subst h; simp
    · split at h
      · injection h with h
        subst h
        exact (List.dropWhile_suffix _).length_le
      · split at h
        · injection h with h
          subst h
          exact numberTail_length false cs
        · split at h
          · simp only [Except.map] at h
            split at h <;> simp at h
            next v hv => subst h; exact Nat.le_of_lt (stringTail_length hv)
          · simp at h

theorem nextToken_length {p : Position} {cs : List Char} {t : Piece Token}
    (h : nextToken p cs = .ok t) : t.rest.length < cs.length := by
  fun_induction nextToken p cs with
  | case1 => simp at h
  | case2 => simp at h
  | case3 p cs r hr ih =>
    have h1 := ih h
    have h2 := skipBlock_length hr
    simp only [List.length_cons]
    omega
  | case4 p c cs _ => have := lexeme_length h; simp only [List.length_cons]; omega

/-! ## The whole source -/

/-- Comments run from `#` or `//` to the end of the line. -/
def startsLineComment : List Char → Bool
  | '#' :: _ => true
  | '/' :: '/' :: _ => true
  | _ => false

def scanFrom (p : Position) (cs : List Char) : Except ScanError (List Token) :=
  match cs with
  | [] => .ok [⟨.endOfInput, "", p⟩]
  | c :: cs' =>
    if isGap c then scanFrom (p.afterGap c) cs'
    else if startsLineComment (c :: cs') then
      let r := skipLine (p.advance 1) cs'
      scanFrom r.1 r.2
    else
      match _h : nextToken p (c :: cs') with
      | .error e => .error e
      | .ok t => (scanFrom t.position t.rest).map (t.value :: ·)
termination_by cs.length
decreasing_by
  · simp
  · have := skipLine_length (p.advance 1) cs'
    simp only [List.length_cons]
    omega
  · exact nextToken_length _h

def scan (source : String) : Except ScanError (List Token) :=
  scanFrom .start source.toList

end ScriptWorkbench.Token
