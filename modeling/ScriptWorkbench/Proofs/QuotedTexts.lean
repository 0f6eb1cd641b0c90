/-
What string literals of the target language stand for.

How a literal is read is defined here for all escapes of the target language and without regard to the
emitter, and whatever names characters have. **Whatever a text holds, what is written for it is one literal on
one line, and this stands for the text** (`denoted_render_text`).
-/
import ScriptWorkbench.Pattern.Escape
import ScriptWorkbench.Proofs.PlainTexts

namespace ScriptWorkbench.Target

open Text List
open Pattern (digitValue? numberOf controlEscape?)

variable {quote c : Char} {width : Nat}

/-! ## Reading literals -/

/-- The character of a code point. A half of a character is none, nor is a number that is too large. -/
def character? (n : Nat) : Option Char := if n.isValidChar then some (Char.ofNat n) else none

def byDigits? (width : Nat) (cs : List Char) : Option (List Char × List Char) :=
  let digits := cs.take width
  if digits.length = width && digits.all fun c => (digitValue? 16 c).isSome then
    (character? (numberOf 16 digits)).map fun c => ([c], cs.drop width)
  else none

def byName? (table : NameTable) : List Char → Option (List Char × List Char)
  | '{' :: cs =>
    match cs.dropWhile (· != '}') with
    | [] => none
    | _ :: rest => ((codeOfName? table (cs.takeWhile (· != '}'))).bind character?).map fun c => ([c], rest)
  | _ => none

/-- What an escape stands for, given the text behind its backslash, and what follows. A backslash before a
character that makes no escape with it stands for itself. -/
def escape? (table : NameTable) : List Char → Option (List Char × List Char)
  | [] => none
  | c :: cs =>
    if c = '\n' then some ([], cs)
    else if c = '\\' ∨ c = '"' ∨ c = Char.ofNat 39 then some ([c], cs)
    else
      match controlEscape? c with
      | some n => some ([Char.ofNat n], cs)
      | none =>
        if c = 'x' then byDigits? 2 cs
        else if c = 'u' then byDigits? 4 cs
        else if c = 'U' then byDigits? 8 cs
        else if c = 'N' then byName? table cs
        else
          let octal := ((c :: cs).take 3).takeWhile fun c => (digitValue? 8 c).isSome
          if octal.isEmpty then some (['\\', c], cs)
          else some ([Char.ofNat (numberOf 8 octal)], (c :: cs).drop octal.length)

/-- What the rest of a literal behind its opening quote stands for. The quote closes it where no backslash
takes it along, and nothing may follow then. A unit of the budget goes with at least one character. -/
def denotedTail? (table : NameTable) (quote : Char) : (budget : Nat) → List Char → Option (List Char)
  | 0, _ | _, [] => none
  | n + 1, c :: cs =>
    if c = quote then if cs.isEmpty then some [] else none
    else if c = '\n' ∨ c = '\r' then none
    else if c = '\\' then
      (escape? table cs).bind fun (taken, rest) => (denotedTail? table quote n rest).map (taken ++ ·)
    else (denotedTail? table quote n cs).map (c :: ·)

/-- What a text stands for that is a string literal on one line. Three quotes at its start would make it
another kind of literal. -/
def denoted? (table : NameTable) : List Char → Option (List Char)
  | [] => none
  | q :: cs =>
    if (q = '"' ∨ q = Char.ofNat 39) ∧ [q, q].isPrefixOf cs = false then denotedTail? table q cs.length cs
    else none

example : denoted? .empty "'a\\x41\\u00e9\\101\\q\\\n\"'".toList = some "aAéA\\q\"".toList := by decide +kernel

/-! ## Hexadecimal digits -/

theorem length_hexDigits (width n : Nat) : (hexDigits width n).length = width := by
  induction width generalizing n with
  | zero => rfl
  | succ width ih => rw [hexDigits, length_append, ih, length_singleton]

theorem digitValue?_hexDigit (n : Nat) : digitValue? 16 (hexDigit (n % 16)) = some (n % 16) := by
  have hall : ∀ d < 16, digitValue? 16 (hexDigit d) = some d := by decide
  exact hall _ (Nat.mod_lt n (by decide))

theorem all_hexDigits (width n : Nat) :
    (hexDigits width n).all (fun c => (digitValue? 16 c).isSome) = true := by
  induction width generalizing n with
  | zero => rfl
  | succ width ih =>
    rw [hexDigits, all_append, ih, all_cons, digitValue?_hexDigit]
    rfl

theorem numberOf_hexDigits (width n : Nat) : numberOf 16 (hexDigits width n) = n % Nat.pow 16 width := by
  induction width generalizing n with
  | zero => exact (Nat.mod_one n).symm
  | succ width ih =>
    have hpow : Nat.pow 16 (width + 1) = 16 * Nat.pow 16 width := Nat.mul_comm _ _
    unfold numberOf at ih ⊢
    rw [hexDigits, foldl_append, ih, foldl_cons, digitValue?_hexDigit, hpow, Nat.mod_mul, Nat.add_comm]
    rfl

theorem byDigits?_hexDigits (h : c.toNat < Nat.pow 16 width) (rest : List Char) :
    byDigits? width (hexDigits width c.toNat ++ rest) = some ([c], rest) := by
  have htake : (hexDigits width c.toNat ++ rest).take width = hexDigits width c.toNat :=
    take_left' (length_hexDigits width _)
  have hvalid : c.toNat.isValidChar := c.valid
  rw [byDigits?, htake, length_hexDigits, all_hexDigits, numberOf_hexDigits, Nat.mod_eq_of_lt h, character?,
    if_pos hvalid, drop_left' (length_hexDigits width _)]
  simp

/-! ## Written texts -/

/-- **One character of a text is read back,** however it is written. -/
theorem denotedTail?_quoteChar {table : NameTable} (hquote : quote = '"' ∨ quote = Char.ofNat 39) (c : Char) (n : Nat)
    (rest : List Char) :
    denotedTail? table quote (n + 1) (quoteChar quote c ++ rest) = (denotedTail? table quote n rest).map (c :: ·) := by
  have hback : '\\' ≠ quote := by rcases hquote with rfl | rfl <;> decide
  -- what a backslash and the character behind it begin is settled by the escape alone
  have hescape {cs : List Char} (h : escape? table (cs ++ rest) = some ([c], rest)) :
      denotedTail? table quote (n + 1) ('\\' :: cs ++ rest) = (denotedTail? table quote n rest).map (c :: ·) := by
    rw [cons_append, denotedTail?, if_neg hback, h]
    rfl
  have hhex {x : Char} {width : Nat} (hx : ∀ cs, escape? table (x :: cs) = byDigits? width cs)
      (h : c.toNat < Nat.pow 16 width) :
      denotedTail? table quote (n + 1) ('\\' :: x :: hexDigits width c.toNat ++ rest) =
        (denotedTail? table quote n rest).map (c :: ·) :=
    hescape ((hx _).trans (byDigits?_hexDigits h rest))
  rw [quoteChar]
  split
  next hc =>
    rcases hquote with rfl | rfl <;> rcases hc with rfl | rfl <;> rfl
  next hc =>
    rw [not_or] at hc
    split
    next ht => subst ht; exact hescape rfl
    next =>
      split
      next hn => subst hn; exact hescape rfl
      next hn =>
        split
        next hr => subst hr; exact hescape rfl
        next hr =>
          split
          next =>
            rw [singleton_append, denotedTail?, if_neg hc.1, if_neg (by rintro (h | h) <;> contradiction),
              if_neg hc.2]
          next =>
            have hvalid : c.toNat < 0xD800 ∨ 0xDFFF < c.toNat ∧ c.toNat < 0x110000 := c.valid
            split
            next h => exact hhex (fun _ => rfl) h
            next =>
              split
              next h => exact hhex (fun _ => rfl) h
              next =>
                have hlarge : 0x110000 ≤ Nat.pow 16 8 := by decide
                exact hhex (fun _ => rfl) (Nat.lt_of_lt_of_le (by omega) hlarge)

theorem denotedTail?_flatMap (table : NameTable) (hquote : quote = '"' ∨ quote = Char.ofNat 39)
    (cs : List Char) {n : Nat} (hn : cs.length < n) :
    denotedTail? table quote n (cs.flatMap (quoteChar quote) ++ [quote]) = some cs := by
  induction cs generalizing n with
  | nil =>
    obtain ⟨m, rfl⟩ := Nat.exists_eq_add_one_of_ne_zero (Nat.ne_of_gt hn)
    rw [flatMap_nil, nil_append, denotedTail?, if_pos rfl]
    rfl
  | cons c cs ih =>
    rw [length_cons] at hn
    obtain ⟨m, rfl⟩ := Nat.exists_eq_add_one_of_ne_zero (Nat.ne_of_gt (Nat.lt_trans (Nat.succ_pos _) hn))
    rw [flatMap_cons, append_assoc, denotedTail?_quoteChar hquote, ih (by omega)]
    rfl

theorem length_le_flatMap_quoteChar (quote : Char) (cs : List Char) :
    cs.length ≤ (cs.flatMap (quoteChar quote)).length := by
  induction cs with
  | nil => exact Nat.le_refl _
  | cons c cs ih =>
    have hc : 0 < (quoteChar quote c).length := by
      unfold quoteChar
      repeat' split
      all_goals simp
    rw [flatMap_cons, length_append, length_cons]
    omega

/-- **What is written for a text stands for it.** -/
theorem denoted?_quoteChars (table : NameTable) (cs : List Char) : denoted? table (quoteChars cs) = some cs := by
  have hquote := quoteFor_cases cs
  have htail := denotedTail?_flatMap table hquote cs
    (n := (cs.flatMap (quoteChar (quoteFor cs)) ++ [quoteFor cs]).length) (by
      rw [length_append]
      exact Nat.lt_succ_of_le (length_le_flatMap_quoteChar _ cs))
  rw [quoteChars, denoted?]
  split
  next => exact htail
  next hno =>
    -- if there were two quotes more, the first of them would have closed the literal
    exfalso
    refine hno ⟨hquote, Bool.eq_false_iff.2 fun hpre => ?_⟩
    obtain ⟨more, hmore⟩ := isPrefixOf_iff_prefix.1 hpre
    rw [← hmore, cons_append, length_cons, denotedTail?, if_pos rfl] at htail
    cases htail

/-- **A string literal of a program stays one.** For the value of a text token the parser gives the literal
of that value, and what is rendered for it begins and ends with a quote and has no line end. Whatever
follows, the first quote that no backslash takes along is the last character. Read by the rules of the target
language, it stands for the value. -/
theorem denoted_render_text (table : NameTable) (tokens : List Token) (value : String) (p : Token.Position) :
    ∃ text q body,
      (∀ n ts, Parser.primary (n + 1) (⟨.text, value, p⟩ :: ts) = .ok (.literal (.text value), ts)) ∧
      render tokens (.literal (.text value)) = .ok text ∧
      text.toList = q :: (body ++ [q]) ∧ (q = '"' ∨ q = Char.ofNat 39) ∧
      '\n' ∉ text.toList ∧ '\r' ∉ text.toList ∧
      (∀ rest, quotedTail q (body ++ q :: rest) = some (body ++ [q], rest)) ∧
      denoted? table text.toList = some value.toList := by
  have hquote := quoteFor_cases value.toList
  have htext : (Text.quote value).toList = quoteChars value.toList := String.toList_ofList
  have hblank {c : Char} (hc : isBlank c = true) (hne : c ≠ ' ') : c ∉ (Text.quote value).toList :=
    fun hmem => hne ((firm_quote value).1.inline c hmem hc)
  refine ⟨Text.quote value, _, _, fun _ _ => rfl, rfl, htext, hquote, hblank (by decide) (by decide),
    hblank (by decide) (by decide), quotedTail_flatMap hquote value.toList, ?_⟩
  rw [htext, denoted?_quoteChars]

end ScriptWorkbench.Target
