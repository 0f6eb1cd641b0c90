/-
Reading numbers from text.

Blanks around a number are passed over, a sign may stand before it, the decimal digits of every script count
as digits, and a single underscore may stand between two digits. Whole numbers are limited to 4300 digits.
-/
import ScriptWorkbench.Number.Binary64
import ScriptWorkbench.Text.Blank
import ScriptWorkbench.Text.Quoted

namespace ScriptWorkbench.Number

/-- Why a text is no number, or a number cannot be written. -/
inductive ReadError where
  | notWhole (text : String)
  | tooLong (digits : Nat)
  | unwritable
  | notReal (text : String)
deriving Repr, DecidableEq

def maxDigits : Nat := 4300

def ReadError.message : ReadError → String
  | .notWhole text =>
    "invalid literal for int() with base 10: " ++
      String.ofList ((Text.quoteChars text.toList).take 200)
  | .tooLong digits =>
    s!"Exceeds the limit ({maxDigits} digits) for integer string conversion: value has {digits} " ++
      "digits; use sys.set_int_max_str_digits() to increase the limit"
  | .unwritable =>
    s!"Exceeds the limit ({maxDigits} digits) for integer string conversion; " ++
      "use sys.set_int_max_str_digits() to increase the limit"
  | .notReal text => "could not convert string to float: " ++ Text.quote text

/-- A character as it counts in a number: decimal digits of every script become ASCII digits, blanks
become spaces, and other characters that are not ASCII become a question mark. -/
def plainChar (c : Char) : Char :=
  if c.toNat < 127 then c
  else if Text.isBlank c then ' '
  else
    match Text.decimalValue? c with
    | some d => Nat.digitChar d
    | none => '?'

def isPadding (c : Char) : Bool :=
  c == ' ' || (9 ≤ c.toNat && c.toNat ≤ 13)

def splitSign : List Char → Bool × List Char
  | '-' :: cs => (true, cs)
  | '+' :: cs => (false, cs)
  | cs => (false, cs)

/-! ## Whole numbers -/

/-- Digits with single underscores between them, and what follows. There is none if an underscore
stands alone; `after` says that one was just passed. -/
def digitRun (after : Bool) : List Char → Option (List Char × List Char)
  | [] => if after then none else some ([], [])
  | c :: cs =>
    if c = '_' then (if after then none else digitRun true cs)
    else if c.isDigit then (digitRun false cs).map fun (ds, rest) => (c :: ds, rest)
    else if after then none
    else some ([], c :: cs)

def digitsValue (ds : List Char) : Nat :=
  ds.foldl (fun n d => 10 * n + (d.toNat - 48)) 0

def readInt (text : String) : Except ReadError Int :=
  let fail : Except ReadError Int := .error (.notWhole text)
  let (negative, cs) := splitSign ((text.toList.map plainChar).dropWhile isPadding)
  match cs with
  | '_' :: _ => fail
  | _ =>
    match digitRun false cs with
    | none => fail
    | some (ds, rest) =>
      if maxDigits < ds.length then .error (.tooLong ds.length)
      else if ds.isEmpty || !rest.all isPadding then fail
      else
        let n : Int := digitsValue ds
        .ok (if negative then -n else n)

/-! ## Floating-point numbers -/

/-- Take out the underscores, each of which has to stand between two digits; `last` is the character
before. -/
def dropUnderscores (last : Char) : List Char → Option (List Char)
  | [] => if last = '_' then none else some []
  | c :: cs =>
    if c = '_' then (if last.isDigit then dropUnderscores c cs else none)
    else if last = '_' && !c.isDigit then none
    else (dropUnderscores c cs).map (c :: ·)

def readExponent : List Char → Option Int
  | [] => some 0
  | e :: cs =>
    if e = 'e' ∨ e = 'E' then
      let (negative, ds) := splitSign cs
      if ds.isEmpty || !ds.all Char.isDigit then none
      else
        let n : Int := digitsValue ds
        some (if negative then -n else n)
    else none

def splitFraction : List Char → List Char × List Char
  | '.' :: cs => (cs.takeWhile Char.isDigit, cs.dropWhile Char.isDigit)
  | cs => ([], cs)

/-- Read an unsigned number: digits around a point and an exponent, or one of the words for an
infinite number and for no number. -/
def readMagnitude (negative : Bool) (cs : List Char) : Option Binary64 :=
  let word := String.ofList (cs.map Char.toLower)
  if word = "inf" ∨ word = "infinity" then some (.infinite negative)
  else if word = "nan" then some .nan
  else
    let whole := cs.takeWhile Char.isDigit
    let (fraction, rest) := splitFraction (cs.dropWhile Char.isDigit)
    if whole.isEmpty && fraction.isEmpty then none
    else
      (readExponent rest).map fun e =>
        Binary64.ofDecimal negative (digitsValue (whole ++ fraction)) (e - fraction.length)

def readReal (text : String) : Except ReadError Binary64 :=
  let cs := Text.dropAround isPadding (text.toList.map plainChar)
  match dropUnderscores ' ' cs with
  | none => .error (.notReal text)
  | some cs =>
    let (negative, cs) := splitSign cs
    match readMagnitude negative cs with
    | some x => .ok x
    | none => .error (.notReal text)

end ScriptWorkbench.Number
