/-
Reading JSON.

The reader takes the words for numbers that are none besides the standard values. A field that is written
twice has its last value in the place of its first. A failure names its place by the number of characters left
there.
-/
import ScriptWorkbench.Json.Basic
import ScriptWorkbench.Number.Read

namespace ScriptWorkbench.Json

/-- What can be wrong at a place of a text. -/
inductive Fault where
  | expectingValue
  | expectingName
  | expectingColon
  | expectingComma
  | unterminatedString
  | controlCharacter
  | badEscape
  | badCode
  | extraData
  | byteOrderMark
deriving Repr, DecidableEq

/-- Why a text is no value; a place is given by what is left of the text. -/
inductive ReadError where
  | fault (what : Fault) (left : Nat)
  | number (error : Number.ReadError)
  | exhausted
deriving Repr, DecidableEq

def Fault.message : Fault → String
  | .expectingValue => "Expecting value"
  | .expectingName => "Expecting property name enclosed in double quotes"
  | .expectingColon => "Expecting ':' delimiter"
  | .expectingComma => "Expecting ',' delimiter"
  | .unterminatedString => "Unterminated string starting at"
  | .controlCharacter => "Invalid control character at"
  | .badEscape => "Invalid \\escape"
  | .badCode => "Invalid \\uXXXX escape"
  | .extraData => "Extra data"
  | .byteOrderMark => "Unexpected UTF-8 BOM (decode using utf-8-sig)"

def ReadError.message (text : List Char) : ReadError → String
  | .fault what left =>
    let position := text.length - left
    let before := text.take position
    let line := before.count '\n' + 1
    let column := (before.reverse.takeWhile (· != '\n')).length + 1
    what.message ++ s!": line {line} column {column} (char {position})"
  | .number error => error.message
  | .exhausted => "budget exhausted"

def failAt {α : Type} (what : Fault) (cs : List Char) : Except ReadError α :=
  .error (.fault what cs.length)

def isSpace (c : Char) : Bool :=
  c == ' ' || c == '\t' || c == '\n' || c == '\r'

def skipSpace (cs : List Char) : List Char :=
  cs.dropWhile isSpace

/-! ## Strings -/

def hexValue? (c : Char) : Option Nat :=
  if c.isDigit then some (c.toNat - 48)
  else if 'a' ≤ c ∧ c ≤ 'f' then some (c.toNat - 87)
  else if 'A' ≤ c ∧ c ≤ 'F' then some (c.toNat - 55)
  else none

def code? : List Char → Option (Nat × List Char)
  | a :: b :: c :: d :: e :: rest => do
    let a ← hexValue? a
    let b ← hexValue? b
    let c ← hexValue? c
    let d ← hexValue? d
    return (((a * 16 + b) * 16 + c) * 16 + d, e :: rest)
  | _ => none

def isHighHalf (n : Nat) : Bool := 0xD800 ≤ n && n < 0xDC00

def isLowHalf (n : Nat) : Bool := 0xDC00 ≤ n && n < 0xE000

def unescape? (c : Char) : Option Char :=
  if c = '"' then some '"'
  else if c = '\\' then some '\\'
  else if c = '/' then some '/'
  else if c = 'b' then some (Char.ofNat 8)
  else if c = 'f' then some (Char.ofNat 12)
  else if c = 'n' then some '\n'
  else if c = 'r' then some '\r'
  else if c = 't' then some '\t'
  else none

def joinCode (n : Nat) (rest : List Char) : Nat × List Char :=
  match rest with
  | '\\' :: 'u' :: more =>
    match code? more with
    | some (m, after) =>
      if isHighHalf n && isLowHalf m then (0x10000 + (n - 0xD800) * 1024 + (m - 0xDC00), after)
      else (n, rest)
    | none => (n, rest)
  | _ => (n, rest)

/-- The code points of a string up to its closing quote, and what follows. The text from the opening quote
on is `start`. -/
def readString : Nat → (start cs : List Char) → Except ReadError (List Nat × List Char)
  | 0, _, _ => .error .exhausted
  | _ + 1, start, [] => failAt .unterminatedString start
  | n + 1, start, c :: cs =>
    if c = '"' then .ok ([], cs)
    else if c = '\\' then
      match cs with
      | [] => failAt .unterminatedString start
      | e :: rest =>
        if e = 'u' then
          match code? rest with
          | none => failAt .badCode cs
          | some (code, rest) =>
            let (code, rest) := joinCode code rest
            (readString n start rest).map fun r => (code :: r.1, r.2)
        else
          match unescape? e with
          | none => failAt .badEscape (c :: cs)
          | some ch => (readString n start rest).map fun r => (ch.toNat :: r.1, r.2)
    else if c.toNat < 32 then failAt .controlCharacter (c :: cs)
    else (readString n start cs).map fun r => (c.toNat :: r.1, r.2)

/-! ## Numbers -/

def wholePart : List Char → List Char × List Char
  | '0' :: cs => (['0'], cs)
  | cs => (cs.takeWhile Char.isDigit, cs.dropWhile Char.isDigit)

def fractionPart : List Char → List Char × List Char
  | '.' :: cs =>
    if (cs.takeWhile Char.isDigit).isEmpty then ([], '.' :: cs)
    else ('.' :: cs.takeWhile Char.isDigit, cs.dropWhile Char.isDigit)
  | cs => ([], cs)

def exponentPart (cs : List Char) : List Char × List Char :=
  match cs with
  | e :: rest =>
    if e = 'e' ∨ e = 'E' then
      let (sign, rest) :=
        match rest with
        | s :: more => if s = '+' ∨ s = '-' then ([s], more) else ([], s :: more)
        | [] => ([], [])
      let digits := rest.takeWhile Char.isDigit
      if digits.isEmpty then ([], cs) else (e :: sign ++ digits, rest.dropWhile Char.isDigit)
    else ([], cs)
  | [] => ([], [])

def readNumber (cs : List Char) : Except ReadError (Json × List Char) :=
  let (sign, digits) := if cs.head? = some '-' then (['-'], cs.drop 1) else ([], cs)
  let (whole, rest) := wholePart digits
  if whole.isEmpty then failAt .expectingValue cs
  else
    let (fraction, rest) := fractionPart rest
    let (exponent, rest) := exponentPart rest
    if fraction.isEmpty && exponent.isEmpty then
      match Number.readInt (String.ofList (sign ++ whole)) with
      | .ok n => .ok (.int n, rest)
      | .error e => .error (.number e)
    else
      match Number.readReal (String.ofList (sign ++ whole ++ fraction ++ exponent)) with
      | .ok x => .ok (.real x, rest)
      | .error e => .error (.number e)

def wordValues : List (List Char × Json) :=
  [("null".toList, .null), ("true".toList, .bool true), ("false".toList, .bool false),
   ("NaN".toList, .real .nan), ("Infinity".toList, .real (.infinite false)),
   ("-Infinity".toList, .real (.infinite true))]

def readWord? (cs : List Char) : Option (Json × List Char) :=
  wordValues.findSome? fun e =>
    if e.1.isPrefixOf cs then some (e.2, cs.drop e.1.length) else none

/-! ## Values -/

mutual

/-- A value at the start of a text, and what follows. Each unit of the budget goes with at most one
character, so what is left of it suffices for a string too. -/
def readValue : Nat → List Char → Except ReadError (Json × List Char)
  | 0, _ => .error .exhausted
  | n + 1, cs =>
    match cs with
    | '"' :: rest => (readString n cs rest).map fun r => (ofCodes r.1, r.2)
    | '{' :: rest =>
      match skipSpace rest with
      | '}' :: rest => .ok (.obj [], rest)
      | rest => (readFields n [] rest).map fun r => (.obj r.1, r.2)
    | '[' :: rest =>
      match skipSpace rest with
      | ']' :: rest => .ok (.arr [], rest)
      | rest => (readItems n rest).map fun r => (.arr r.1, r.2)
    | _ =>
      match readWord? cs with
      | some r => .ok r
      | none => readNumber cs

def readItems : Nat → List Char → Except ReadError (List Json × List Char)
  | 0, _ => .error .exhausted
  | n + 1, cs => do
    let (v, rest) ← readValue n cs
    match skipSpace rest with
    | ']' :: rest => return ([v], rest)
    | ',' :: rest =>
      let (vs, rest) ← readItems n (skipSpace rest)
      return (v :: vs, rest)
    | rest => failAt .expectingComma rest

/-- The fields of an object up to its closing brace, set one after the other into those read so far,
and what follows. -/
def readFields : Nat → Fields → List Char → Except ReadError (Fields × List Char)
  | 0, _, _ => .error .exhausted
  | n + 1, fields, cs =>
    match cs with
    | '"' :: rest => do
      let (key, rest) ← readString n cs rest
      match skipSpace rest with
      | ':' :: rest =>
        let (v, rest) ← readValue n (skipSpace rest)
        let fields := setField (.ofCodes key) v fields
        match skipSpace rest with
        | '}' :: rest => return (fields, rest)
        | ',' :: rest => readFields n fields (skipSpace rest)
        | rest => failAt .expectingComma rest
      | rest => failAt .expectingColon rest
    | _ => failAt .expectingName cs

end

def readChars (cs : List Char) : Except ReadError Json := do
  if cs.head? = some (Char.ofNat 0xFEFF) then failAt .byteOrderMark cs
  else
    let (v, rest) ← readValue (2 * cs.length + 2) (skipSpace cs)
    let rest := skipSpace rest
    if rest.isEmpty then return v else failAt .extraData rest

def read (text : String) : Except ReadError Json :=
  readChars text.toList

end ScriptWorkbench.Json
