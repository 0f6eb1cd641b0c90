/-
Decoding UTF-8.

Where the bytes do not form a character, the decoder names the longest stretch that could still have begun
one, the reason, and the place; a lenient reading leaves that stretch out and goes on behind it.
-/
import ScriptWorkbench.Text.Quoted

namespace ScriptWorkbench.Text.Utf8

/-- Why bytes are no text. -/
inductive Reason where
  | invalidStart
  | invalidContinuation
  | unexpectedEnd
deriving Repr, DecidableEq

def Reason.message : Reason → String
  | .invalidStart => "invalid start byte"
  | .invalidContinuation => "invalid continuation byte"
  | .unexpectedEnd => "unexpected end of data"

/-- What stands at the front of some bytes: a character of so many bytes, or a stretch of so many
bytes that is none. -/
inductive Front where
  | char (c : Char) (size : Nat)
  | bad (size : Nat) (reason : Reason)
deriving Repr

def isContinuation (b : UInt8) : Bool :=
  b.toNat / 64 == 2

def payload (b : UInt8) : Nat :=
  b.toNat % 64

/-- The second byte `b` can follow the first byte `a`: it continues a character, and the character
is neither written too long, nor a surrogate, nor beyond the last code point. -/
def isSecond (a b : UInt8) : Bool :=
  isContinuation b &&
    !((a == 0xE0 && b < 0xA0) || (a == 0xED && 0xA0 ≤ b) || (a == 0xF0 && b < 0x90) ||
      (a == 0xF4 && 0x90 ≤ b))

def front (a : UInt8) (rest : List UInt8) : Front :=
  if a < 0x80 then .char (Char.ofNat a.toNat) 1
  else if a < 0xC2 || 0xF5 ≤ a then .bad 1 .invalidStart
  else
    match rest with
    | [] => .bad 1 .unexpectedEnd
    | b :: rest =>
      if !isSecond a b then .bad 1 .invalidContinuation
      else if a < 0xE0 then .char (Char.ofNat ((a.toNat - 0xC0) * 64 + payload b)) 2
      else
        match rest with
        | [] => .bad 2 .unexpectedEnd
        | c :: rest =>
          if !isContinuation c then .bad 2 .invalidContinuation
          else if a < 0xF0 then
            .char (Char.ofNat ((a.toNat - 0xE0) * 4096 + payload b * 64 + payload c)) 3
          else
            match rest with
            | [] => .bad 3 .unexpectedEnd
            | d :: _ =>
              if !isContinuation d then .bad 3 .invalidContinuation
              else
                .char (Char.ofNat ((a.toNat - 0xF0) * 262144 + payload b * 4096 + payload c * 64 +
                  payload d)) 4

/-- Where bytes are no text. -/
structure DecodeError where
  byte : UInt8
  position : Nat
  size : Nat
  reason : Reason
deriving Repr, DecidableEq

def DecodeError.message (e : DecodeError) : String :=
  let last := e.position + e.size - 1
  let place :=
    if e.size = 1 then
      "byte 0x" ++ String.ofList (hexDigits 2 e.byte.toNat) ++ s!" in position {e.position}"
    else s!"bytes in position {e.position}-{last}"
  "'utf-8' codec can't decode " ++ place ++ ": " ++ e.reason.message

def decodeFrom (position skip : Nat) : List UInt8 → Except DecodeError (List Char)
  | [] => .ok []
  | a :: rest =>
    match skip with
    | k + 1 => decodeFrom (position + 1) k rest
    | 0 =>
      match front a rest with
      | .char c size => (decodeFrom (position + 1) (size - 1) rest).map (c :: ·)
      | .bad size reason => .error ⟨a, position, size, reason⟩

def decode (bytes : List UInt8) : Except DecodeError (List Char) :=
  decodeFrom 0 0 bytes

def decodeLenientFrom (skip : Nat) : List UInt8 → List Char
  | [] => []
  | a :: rest =>
    match skip with
    | k + 1 => decodeLenientFrom k rest
    | 0 =>
      match front a rest with
      | .char c size => c :: decodeLenientFrom (size - 1) rest
      | .bad size _ => decodeLenientFrom (size - 1) rest

def decodeLenient (bytes : List UInt8) : List Char :=
  decodeLenientFrom 0 bytes

end ScriptWorkbench.Text.Utf8
