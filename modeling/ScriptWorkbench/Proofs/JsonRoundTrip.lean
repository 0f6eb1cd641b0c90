/-
Values that survive a file.

A JSON value that was written to a file and is read again is the same value, if it has no floating-point
number in it, names no field of an object twice, and could be written at all (`read_writeFile`).

One unit of the reader's budget goes with a character at most, so the statements below bound a length by the
budget (`Survives`). What stands behind a value matters too: in a file a comma or a line feed follows, or
nothing.
-/
import ScriptWorkbench.Json.Reader
import ScriptWorkbench.Json.Writer
import ScriptWorkbench.Proofs.Numerals

namespace ScriptWorkbench.Json

open List

open Number (isDigit_toDigits head?_toDigits_append head?_toDigits_ne_zero digitsValue_toDigits
  map_plainChar_of_digits readInt_of_splitSign readInt_ofList)

variable {rest : List Char} {n : Nat} {v : Json} {key : String} {name : Name} {fields : Fields}

/-- **A value that a file can hold without loss:** no floating-point number and no half of a character is in
it, and no object names a field twice. -/
inductive Exact : Json → Prop where
  | null : Exact .null
  | bool (b : Bool) : Exact (.bool b)
  | int (n : Int) : Exact (.int n)
  | str (s : String) : Exact (.str s)
  | arr {items : List Json} : (∀ v ∈ items, Exact v) → Exact (.arr items)
  | obj {fields : Fields} : (fields.map Prod.fst).Nodup → fields.all (·.1.isWhole) →
      (∀ f ∈ fields, Exact f.2) → Exact (.obj fields)

/-! ## Strings -/

theorem hexValue?_hexDigit (h : n < 16) : hexValue? (Text.hexDigit n) = some n := by
  have hall : ∀ d < 16, hexValue? (Text.hexDigit d) = some d := by decide
  exact hall n h

theorem hexDigits_four (n : Nat) : Text.hexDigits 4 n = [Text.hexDigit (n / 16 / 16 / 16 % 16),
    Text.hexDigit (n / 16 / 16 % 16), Text.hexDigit (n / 16 % 16), Text.hexDigit (n % 16)] := rfl

theorem code?_hexDigits (h : n < 65536) (e : Char) (rest : List Char) :
    code? (Text.hexDigits 4 n ++ e :: rest) = some (n, e :: rest) := by
  have hvalue (m : Nat) : hexValue? (Text.hexDigit (m % 16)) = some (m % 16) :=
    hexValue?_hexDigit (Nat.mod_lt m (by decide))
  have hsum : ((n / 16 / 16 / 16 % 16 * 16 + n / 16 / 16 % 16) * 16 + n / 16 % 16) * 16 + n % 16 = n := by
    omega
  rw [hexDigits_four]
  simp only [cons_append, nil_append, code?, hvalue, bind, Option.bind, pure, hsum]

theorem joinCode_of_lt (h : n < 0xD800) (rest : List Char) :
    joinCode n rest = (n, rest) := by
  have hhigh : isHighHalf n = false := by simp [isHighHalf]; omega
  unfold joinCode
  repeat' split
  all_goals simp_all

/-- **One character of a string is read back,** for one unit of the budget. -/
theorem readString_escapeChar (c e : Char) (n : Nat) (start rest : List Char) :
    readString (n + 1) start (escapeChar c ++ e :: rest) =
      (readString n start (e :: rest)).map fun r => (c.toNat :: r.1, r.2) := by
  -- one case for each way to write a character; a letter behind a backslash is read by computing
  unfold escapeChar
  split
  next hc => subst hc; rfl
  rename_i hquote
  split
  next hc => subst hc; rfl
  rename_i hslash
  iterate 3
    split
    next hc => subst hc; rfl
  split
  next hc =>
    obtain rfl : c = Char.ofNat 8 := by rw [← hc, Char.ofNat_toNat]
    rfl
  split
  next hc =>
    obtain rfl : c = Char.ofNat 12 := by rw [← hc, Char.ofNat_toNat]
    rfl
  split
  next hc =>
    -- a control character is written by its code
    rw [cons_append, cons_append, readString, if_neg (by decide), if_pos rfl]
    rw [if_pos rfl, code?_hexDigits (by omega)]
    dsimp only
    rw [joinCode_of_lt (by omega)]
  next hc => rw [singleton_append, readString, if_neg hquote, if_neg hslash, if_neg hc]

theorem readString_flatMap (cs : List Char) (hn : cs.length < n) (start rest : List Char) :
    readString n start (cs.flatMap escapeChar ++ '"' :: rest) = .ok (cs.map Char.toNat, rest) := by
  induction cs generalizing n with
  | nil =>
    obtain ⟨m, rfl⟩ : ∃ m, n = m + 1 := ⟨n - 1, by simp at hn; omega⟩
    rfl
  | cons c cs ih =>
    rw [length_cons] at hn
    obtain ⟨m, rfl⟩ : ∃ m, n = m + 1 := ⟨n - 1, by omega⟩
    -- behind a character something is left: the next one, or the quote
    have hnext : ∃ e more, cs.flatMap escapeChar ++ '"' :: rest = e :: more := by
      cases hcs : cs.flatMap escapeChar with
      | nil | cons e more => exact ⟨_, _, rfl⟩
    obtain ⟨e, more, hmore⟩ := hnext
    rw [flatMap_cons, append_assoc, hmore, readString_escapeChar, ← hmore, ih (by omega)]
    rfl

theorem length_le_flatMap_escapeChar (cs : List Char) :
    cs.length ≤ (cs.flatMap escapeChar).length := by
  induction cs with
  | nil => exact Nat.le_refl _
  | cons c cs ih =>
    have hc : 1 ≤ (escapeChar c).length := by
      unfold escapeChar
      repeat' split
      all_goals simp
    rw [flatMap_cons, length_append, length_cons]
    omega

/-- **A string is read back.** -/
theorem readString_writeString (s : String) (hn : (writeString s).length ≤ n)
    (start rest : List Char) :
    readString n start (s.toList.flatMap escapeChar ++ '"' :: rest) =
      .ok (s.toList.map Char.toNat, rest) := by
  have hlength := length_le_flatMap_escapeChar s.toList
  rw [writeString, length_cons, length_append] at hn
  exact readString_flatMap s.toList (by omega) start rest

theorem isHalf_toNat (c : Char) : isHalf c.toNat = false := by
  have hvalid : c.toNat < 0xD800 ∨ 0xDFFF < c.toNat ∧ c.toNat < 0x110000 := c.valid
  rw [isHalf, Bool.and_eq_false_iff, decide_eq_false_iff_not, decide_eq_false_iff_not]
  omega

theorem ofCodes_toNat (s : String) : Name.ofCodes (s.toList.map Char.toNat) = .whole s := by
  have hhalf : (s.toList.map Char.toNat).any isHalf = false := by simp [isHalf_toNat]
  rw [Name.ofCodes, hhalf]
  simp [Function.comp_def]

/-! ## Blanks -/

theorem skipSpace_newLine (level : Nat) (cs : List Char) :
    skipSpace (newLine level ++ cs) = skipSpace cs := by
  refine dropWhile_append_of_pos fun c hc => ?_
  obtain rfl | hc := mem_cons.1 hc
  · rfl
  · rw [eq_of_mem_replicate hc]
    rfl

theorem skipSpace_cons {c : Char} (h : isSpace c = false) (cs : List Char) :
    skipSpace (c :: cs) = c :: cs := by
  rw [skipSpace, dropWhile_cons, h]
  rfl

theorem length_newLine_pos (level : Nat) : 0 < (newLine level).length := by
  exact Nat.succ_pos _

/-! ## Numbers -/

def Closed (rest : List Char) : Prop := ∀ c ∈ rest.head?, c = ',' ∨ c = '\n'

theorem closed_nil : Closed [] := by rintro c ⟨⟩

theorem closed_comma (rest : List Char) : Closed (',' :: rest) := by
  rintro c ⟨⟩
  exact .inl rfl

theorem closed_newLine (level : Nat) (rest : List Char) : Closed (newLine level ++ rest) := by
  rintro c ⟨⟩
  exact .inr rfl

theorem Closed.head (h : Closed rest) {p : Char → Bool} (hcomma : p ',' = false)
    (hfeed : p '\n' = false) : ∀ c ∈ rest.head?, p c = false := by
  intro c hc
  obtain rfl | rfl := h c hc
  · exact hcomma
  · exact hfeed

theorem fractionPart_of_closed (h : Closed rest) :
    fractionPart rest = ([], rest) := by
  unfold fractionPart
  split
  next cs => exact absurd (h '.' rfl) (by decide)
  next => rfl

theorem exponentPart_of_closed (h : Closed rest) :
    exponentPart rest = ([], rest) := by
  unfold exponentPart
  split
  next e cs =>
    rw [if_neg]
    rintro (rfl | rfl)
    · exact absurd (h 'e' rfl) (by decide)
    · exact absurd (h 'E' rfl) (by decide)
  next => rfl

theorem wholePart_toDigits (n : Nat) (h : Closed rest) :
    wholePart (Nat.toDigits 10 n ++ rest) = (Nat.toDigits 10 n, rest) := by
  obtain ⟨htake, hdrop⟩ := takeWhile_append_of_stop (isDigit_toDigits n) (h.head rfl rfl)
  by_cases hn : n = 0
  · subst hn
    rfl
  · rw [wholePart]
    · rw [htake, hdrop]
    · intro cs hcs
      have hhead := head?_toDigits_append n rest
      rw [hcs] at hhead
      exact head?_toDigits_ne_zero (by omega) hhead.symm

theorem readInt_writeInt {n : Int} (h : (Nat.toDigits 10 n.natAbs).length ≤ Number.maxDigits) :
    Number.readInt (String.ofList (writeInt n)) = .ok n := by
  have hvalue := digitsValue_toDigits n.natAbs
  unfold writeInt
  by_cases hneg : n < 0
  · have hsign : Number.splitSign (((String.ofList ('-' :: Nat.toDigits 10 n.natAbs)).toList.map
        Number.plainChar).dropWhile Number.isPadding) = (true, Nat.toDigits 10 n.natAbs) := by
      rw [String.toList_ofList, map_cons, map_plainChar_of_digits (isDigit_toDigits _)]
      rfl
    rw [if_pos hneg, readInt_of_splitSign hsign Nat.toDigits_ne_nil (isDigit_toDigits _) h, if_pos rfl]
    congr
    omega
  · obtain ⟨d, ds, hds⟩ := exists_cons_of_ne_nil (Nat.toDigits_ne_nil (n := n.natAbs) (b := 10))
    have hdigits := isDigit_toDigits n.natAbs
    rw [hds] at h hvalue hdigits
    rw [if_neg hneg, hds, readInt_ofList hdigits h]
    congr
    omega

/-- **A whole number is read back.** -/
theorem readNumber_writeInt {n : Int} (hn : (Nat.toDigits 10 n.natAbs).length ≤ Number.maxDigits)
    (hrest : Closed rest) :
    readNumber (writeInt n ++ rest) = .ok (.int n, rest) := by
  have hread := readInt_writeInt hn
  have hempty : (Nat.toDigits 10 n.natAbs).isEmpty = false :=
    isEmpty_eq_false_iff.2 Nat.toDigits_ne_nil
  unfold writeInt at hread ⊢
  -- the sign is split off and put back before the digits are read as a number
  by_cases hneg : n < 0
  · rw [if_pos hneg] at hread ⊢
    simp only [readNumber, cons_append, head?_cons, if_true, drop_succ_cons,
      drop_zero, nil_append, wholePart_toDigits _ hrest, fractionPart_of_closed hrest,
      exponentPart_of_closed hrest, hempty, hread, isEmpty_nil, Bool.and_self, Bool.false_eq_true,
      if_false]
  · have hhead : (Nat.toDigits 10 n.natAbs ++ rest).head? ≠ some '-' := by
      rw [head?_toDigits_append]
      intro hminus
      exact absurd (isDigit_toDigits _ _ (mem_of_head? hminus)) (by decide)
    rw [if_neg hneg] at hread ⊢
    simp only [readNumber, if_neg hhead, nil_append, wholePart_toDigits _ hrest,
      fractionPart_of_closed hrest, exponentPart_of_closed hrest, hempty, hread, isEmpty_nil,
      Bool.and_self, Bool.false_eq_true, if_false, if_true]

theorem exists_writeInt_eq_cons (n : Int) :
    ∃ c cs, writeInt n = c :: cs ∧ (c = '-' ∨ c.isDigit = true) := by
  by_cases hneg : n < 0
  · exact ⟨'-', _, if_pos hneg, .inl rfl⟩
  · obtain ⟨d, ds, hds⟩ :=
      exists_cons_of_ne_nil (Nat.toDigits_ne_nil (n := n.natAbs) (b := 10))
    exact ⟨d, ds, (if_neg hneg).trans hds, .inr (isDigit_toDigits n.natAbs d (hds ▸ mem_cons_self))⟩

theorem readWord?_writeInt (n : Int) (rest : List Char) : readWord? (writeInt n ++ rest) = none := by
  obtain ⟨d, ds, hds⟩ := exists_cons_of_ne_nil (Nat.toDigits_ne_nil (n := n.natAbs) (b := 10))
  have hd : d.isDigit = true := isDigit_toDigits n.natAbs d (hds ▸ mem_cons_self)
  have hne (c : Char) (hc : c.isDigit = false) : c ≠ d := by
    rintro rfl
    rw [hc] at hd
    exact absurd hd (by decide)
  have hletters : 'n' ≠ d ∧ 't' ≠ d ∧ 'f' ≠ d ∧ 'N' ≠ d ∧ 'I' ≠ d ∧ '-' ≠ d :=
    ⟨hne _ rfl, hne _ rfl, hne _ rfl, hne _ rfl, hne _ rfl, hne _ rfl⟩
  unfold writeInt
  by_cases hneg : n < 0
  · rw [if_pos hneg, hds]
    simp +decide [readWord?, wordValues, hletters]
  · rw [if_neg hneg, hds]
    simp +decide [readWord?, wordValues, hletters]

/-! ## Values -/

/-- **A value survives:** it is read back wherever it stands, if what follows closes it and the budget is
larger than its text. -/
def Survives (v : Json) : Prop :=
  ∀ (level n : Nat) (rest : List Char), Closed rest → (writeAt level v).length < n →
    readValue n (writeAt level v ++ rest) = .ok (v, rest)

theorem Exact.writeAt_eq_cons (h : v.Exact) (level : Nat) :
    ∃ c cs, writeAt level v = c :: cs ∧ 33 ≤ c.toNat ∧ c.toNat < 127 ∧ c ≠ ']' := by
  cases h with
  | null => exact ⟨'n', _, rfl, by decide⟩
  | bool b =>
    cases b with
    | true => exact ⟨'t', _, rfl, by decide⟩
    | false => exact ⟨'f', _, rfl, by decide⟩
  | int n =>
    obtain ⟨c, cs, hcs, rfl | hc⟩ := exists_writeInt_eq_cons n
    · exact ⟨'-', cs, hcs, by decide⟩
    · have hrange : 48 ≤ c.toNat ∧ c.toNat ≤ 57 := Char.isDigit_iff_toNat.1 hc
      refine ⟨c, cs, hcs, by omega, by omega, ?_⟩
      rintro rfl
      exact absurd hc (by decide)
  | str s => exact ⟨'"', _, rfl, by decide⟩
  | @arr items _ =>
    cases items with
    | nil | cons v vs => exact ⟨'[', _, rfl, by decide⟩
  | @obj fields _ _ =>
    cases fields with
    | nil | cons f fs => exact ⟨'{', _, rfl, by decide⟩

theorem isSpace_of_le {c : Char} (h : 33 ≤ c.toNat) : isSpace c = false := by
  have hne (d : Char) (hd : d.toNat < 33) : (c == d) = false := by
    rw [beq_eq_false_iff_ne]
    rintro rfl
    omega
  rw [isSpace, hne ' ' (by decide), hne '\t' (by decide), hne '\n' (by decide), hne '\r' (by decide)]
  rfl

theorem Exact.skipSpace_writeAt (h : v.Exact) (level : Nat) (rest : List Char) :
    skipSpace (writeAt level v ++ rest) = writeAt level v ++ rest := by
  obtain ⟨c, cs, hcs, hc, -⟩ := h.writeAt_eq_cons level
  rw [hcs]
  exact skipSpace_cons (isSpace_of_le hc) _

theorem writeString_append (s : String) (rest : List Char) :
    writeString s ++ rest = '"' :: (s.toList.flatMap escapeChar ++ '"' :: rest) := by
  rw [writeString, cons_append, append_assoc, singleton_append]

/-! ### Arrays -/

section ItemSteps

variable {n : Nat} {cs rest more after : List Char} {v : Json}

theorem readValue_arr (hspace : skipSpace cs = rest) (hne : rest.head? ≠ some ']') :
    readValue (n + 1) ('[' :: cs) = (readItems n rest).map fun r => (.arr r.1, r.2) := by
  rw [readValue, hspace]
  split
  next => exact absurd rfl hne
  next => rfl

theorem readItems_last (hv : readValue n cs = .ok (v, rest)) (hspace : skipSpace rest = ']' :: more) :
    readItems (n + 1) cs = .ok ([v], more) := by
  simp only [readItems, hv, bind, Except.bind, hspace]
  rfl

theorem readItems_more {vs : List Json} (hv : readValue n cs = .ok (v, rest))
    (hspace : skipSpace rest = ',' :: more) (hvs : readItems n (skipSpace more) = .ok (vs, after)) :
    readItems (n + 1) cs = .ok (v :: vs, after) := by
  simp only [readItems, hv, bind, Except.bind, hspace, hvs]
  rfl

end ItemSteps

theorem writeItems_cons_append (level : Nat) (v : Json) (vs : List Json) (rest : List Char) :
    writeItems level (v :: vs) ++ rest =
      ',' :: (newLine level ++ (writeAt level v ++ (writeItems level vs ++ rest))) := by
  simp only [writeItems, cons_append, append_assoc]

theorem closed_writeItems (level : Nat) (vs : List Json) (rest : List Char) :
    Closed (writeItems (level + 1) vs ++ (newLine level ++ rest)) := by
  cases vs with
  | nil => exact closed_newLine level rest
  | cons v vs => exact closed_comma _

/-- **The items of an array are read back** if each survives. -/
theorem readItems_writeItems (level : Nat) (rest : List Char) (v : Json) (vs : List Json)
    (hexact : ∀ u ∈ v :: vs, u.Exact) (hsurvive : ∀ u ∈ v :: vs, u.Survives)
    (hn : (writeAt (level + 1) v).length + (writeItems (level + 1) vs).length + 1 < n) :
    readItems n (writeAt (level + 1) v ++ (writeItems (level + 1) vs ++ (newLine level ++ ']' :: rest))) =
      .ok (v :: vs, rest) := by
  obtain ⟨m, rfl⟩ : ∃ m, n = m + 1 := ⟨n - 1, by omega⟩
  have hv := hsurvive v mem_cons_self (level + 1) m _ (closed_writeItems level vs (']' :: rest))
    (by omega)
  induction vs generalizing v m with
  | nil =>
    refine readItems_last hv ?_
    -- the closing bracket stands on a line of its own, one level up
    rw [writeItems, nil_append, skipSpace_newLine, skipSpace_cons rfl]
  | cons u us ih =>
    rw [writeItems, length_cons, length_append, length_append] at hn
    have hline := length_newLine_pos (level + 1)
    have hu : u.Exact := hexact u (mem_cons_of_mem v mem_cons_self)
    obtain ⟨k, rfl⟩ : ∃ k, m = k + 1 := ⟨m - 1, by omega⟩
    rw [writeItems_cons_append] at hv ⊢
    refine readItems_more hv (skipSpace_cons rfl _) ?_
    rw [skipSpace_newLine, hu.skipSpace_writeAt]
    have hrest : ∀ w ∈ u :: us, w.Survives := fun w hw => hsurvive w (mem_cons_of_mem v hw)
    exact ih u (fun w hw => hexact w (mem_cons_of_mem v hw)) hrest k (by omega)
      (hrest u mem_cons_self (level + 1) k _ (closed_writeItems level us _) (by omega))

/-! ### Objects -/

theorem setField_of_not_mem (h : name ∉ fields.map Prod.fst) (v : Json) :
    setField name v fields = fields ++ [(name, v)] := by
  induction fields with
  | nil => rfl
  | cons f fields ih =>
    rw [map_cons, mem_cons, not_or] at h
    rw [setField, if_neg (Ne.symm h.1), ih h.2]
    rfl

theorem exists_whole (h : ((name, v) :: fields).all (·.1.isWhole)) :
    (∃ key, name = .whole key) ∧ fields.all (·.1.isWhole) := by
  rw [all_cons, Bool.and_eq_true] at h
  cases name with
  | whole key => exact ⟨⟨key, rfl⟩, h.2⟩
  | torn => cases h.1

theorem not_mem_of_nodup {before fs : Fields}
    (h : ((before ++ (name, v) :: fs).map Prod.fst).Nodup) : name ∉ before.map Prod.fst := by
  rw [map_append] at h
  intro hmem
  exact (nodup_append.1 h).2.2 _ hmem _ mem_cons_self rfl

theorem writeFields_cons_append (level : Nat) (key : String) (v : Json) (fs : Fields)
    (rest : List Char) :
    writeFields level ((.whole key, v) :: fs) ++ rest =
      ',' :: (newLine level ++ (writeString key ++
        ':' :: ' ' :: (writeAt level v ++ (writeFields level fs ++ rest)))) := by
  simp only [writeFields, Name.write, cons_append, append_assoc]

theorem closed_writeFields (level : Nat) (fs : Fields) (rest : List Char) :
    Closed (writeFields (level + 1) fs ++ (newLine level ++ rest)) := by
  cases fs with
  | nil => exact closed_newLine level rest
  | cons f fs => exact closed_comma _

theorem readValue_obj {cs : List Char} (hspace : skipSpace cs = rest) (hne : rest.head? ≠ some '}') :
    readValue (n + 1) ('{' :: cs) = (readFields n [] rest).map fun r => (.obj r.1, r.2) := by
  rw [readValue, hspace]
  split
  next => exact absurd rfl hne
  next => rfl

theorem readFields_field {level : Nat} {more : List Char} (hexact : v.Exact) (hsurvives : v.Survives)
    (hclosed : Closed rest) (hn : (writeString key).length + (writeAt level v).length ≤ n)
    (hnew : .whole key ∉ fields.map Prod.fst) :
    let text := writeString key ++ ':' :: ' ' :: (writeAt level v ++ rest)
    (skipSpace rest = '}' :: more → readFields (n + 1) fields text = .ok (fields ++ [(.whole key, v)], more)) ∧
      (skipSpace rest = ',' :: more →
        readFields (n + 1) fields text = readFields n (fields ++ [(.whole key, v)]) (skipSpace more)) := by
  have hpos : 0 < (writeString key).length := Nat.succ_pos _
  have hkey (start : List Char) := readString_writeString key (by omega : _ ≤ n) start
    (':' :: ' ' :: (writeAt level v ++ rest))
  have hspace : skipSpace (' ' :: (writeAt level v ++ rest)) = writeAt level v ++ rest :=
    hexact.skipSpace_writeAt level rest
  have hvalue := hsurvives level n rest hclosed (by omega)
  have hcolon (cs : List Char) : skipSpace (':' :: cs) = ':' :: cs := rfl
  rw [writeString_append]
  constructor <;> intro hmark <;>
    simp only [readFields, hkey, bind, Except.bind, hcolon, hspace, hvalue, hmark, ofCodes_toNat,
      setField_of_not_mem hnew]
  rfl

/-- **The fields of an object are read back** behind those read so far, if each value survives and no name
comes twice. -/
theorem readFields_writeFields (level : Nat) (rest : List Char) (key : String) (v : Json)
    (fs before : Fields) (hkeys : ((before ++ (.whole key, v) :: fs).map Prod.fst).Nodup)
    (hwhole : fs.all (·.1.isWhole)) (hexact : ∀ f ∈ (.whole key, v) :: fs, f.2.Exact)
    (hsurvive : ∀ f ∈ (.whole key, v) :: fs, f.2.Survives)
    (hn : (writeString key).length + (writeAt (level + 1) v).length +
      (writeFields (level + 1) fs).length + 1 < n) :
    readFields n before (writeString key ++ ':' :: ' ' :: (writeAt (level + 1) v ++
      (writeFields (level + 1) fs ++ (newLine level ++ '}' :: rest)))) =
      .ok (before ++ (.whole key, v) :: fs, rest) := by
  induction fs generalizing key v before n with
  | nil =>
    obtain ⟨m, rfl⟩ : ∃ m, n = m + 1 := ⟨n - 1, by omega⟩
    exact (readFields_field (v := v) (hexact _ mem_cons_self) (hsurvive _ mem_cons_self)
      (closed_writeFields level [] _) (by omega) (not_mem_of_nodup hkeys)).1 (skipSpace_newLine level _)
  | cons f fs ih =>
    obtain ⟨name, w⟩ := f
    obtain ⟨⟨nextKey, rfl⟩, hrest⟩ := exists_whole hwhole
    obtain ⟨m, rfl⟩ : ∃ m, n = m + 1 := ⟨n - 1, by omega⟩
    have hmark : skipSpace (writeFields (level + 1) ((.whole nextKey, w) :: fs) ++
        (newLine level ++ '}' :: rest)) = _ :=
      (congrArg skipSpace (writeFields_cons_append _ nextKey w fs _)).trans (skipSpace_cons rfl _)
    rw [(readFields_field (v := v) (hexact _ mem_cons_self) (hsurvive _ mem_cons_self)
      (closed_writeFields level _ _) (by omega) (not_mem_of_nodup hkeys)).2 hmark]
    have happend : before ++ (.whole key, v) :: (.whole nextKey, w) :: fs =
        before ++ [(.whole key, v)] ++ (.whole nextKey, w) :: fs := append_cons _ _ _
    rw [happend] at hkeys ⊢
    rw [skipSpace_newLine, writeString_append, ← writeString_append]
    refine ih nextKey w _ hkeys hrest (fun f hf => hexact f (mem_cons_of_mem _ hf))
      (fun f hf => hsurvive f (mem_cons_of_mem _ hf)) ?_
    simp only [writeFields, Name.write, length_cons, length_append] at hn
    omega

/-! ### All values -/

theorem writableItems_iff {items : List Json} :
    writableItems items = true ↔ ∀ v ∈ items, v.writable = true := by
  induction items with
  | nil => exact iff_of_true rfl (forall_mem_nil _)
  | cons v vs ih => rw [writableItems, Bool.and_eq_true, ih, forall_mem_cons]

theorem writableFields_iff : writableFields fields = true ↔ ∀ f ∈ fields, f.2.writable = true := by
  induction fields with
  | nil => exact iff_of_true rfl (forall_mem_nil _)
  | cons f fs ih => rw [writableFields, Bool.and_eq_true, ih, forall_mem_cons]

theorem readValue_writeInt {i : Int} (hi : (Nat.toDigits 10 i.natAbs).length ≤ Number.maxDigits)
    (hrest : Closed rest) (n : Nat) :
    readValue (n + 1) (writeInt i ++ rest) = .ok (.int i, rest) := by
  have hword := readWord?_writeInt i rest
  have hnumber := readNumber_writeInt hi hrest
  obtain ⟨c, cs, hcs, hc⟩ := exists_writeInt_eq_cons i
  have hother : c ≠ '"' ∧ c ≠ '{' ∧ c ≠ '[' := by
    refine ⟨?_, ?_, ?_⟩ <;>
    · rintro rfl
      exact absurd hc (by decide)
  rw [hcs] at hword hnumber ⊢
  rw [readValue, hword]
  · exact hnumber
  · exact fun more h => hother.1 (cons.inj h).1
  · exact fun more h => hother.2.1 (cons.inj h).1
  · exact fun more h => hother.2.2 (cons.inj h).1

/-- **Every value without loss survives** if it can be written. -/
theorem Exact.survives (h : v.Exact) (hwrite : v.writable = true) : v.Survives := by
  intro level n rest hrest hn
  obtain ⟨m, rfl⟩ : ∃ m, n = m + 1 := ⟨n - 1, by omega⟩
  -- the level is free in the hypotheses, as the parts of a value stand one level deeper
  induction h generalizing level m rest with
  | null => rfl
  | bool b => cases b <;> rfl
  | int i =>
    rw [writable, decide_eq_true_eq] at hwrite
    exact readValue_writeInt hwrite hrest m
  | str s =>
    rw [writeAt] at hn ⊢
    rw [writeString_append, readValue, readString_writeString s (by omega), Except.map, ofCodes,
      ofCodes_toNat]
    rfl
  | @arr items hitems ih =>
    have hall := writableItems_iff.1 hwrite
    cases items with
    | nil => rfl
    | cons v vs =>
      have hv : v.Exact := hitems v mem_cons_self
      have hsurvive : ∀ u ∈ v :: vs, u.Survives := by
        intro u hu level n rest hrest hn
        obtain ⟨k, rfl⟩ : ∃ k, n = k + 1 := ⟨n - 1, by omega⟩
        exact ih u hu (hall u hu) level rest hrest k hn
      obtain ⟨c, cs, hcs, -, -, hc⟩ := hv.writeAt_eq_cons (level + 1)
      simp only [writeAt, cons_append, append_assoc, nil_append] at hn ⊢
      rw [readValue_arr ((skipSpace_newLine _ _).trans (hv.skipSpace_writeAt _ _))
        (by rw [hcs]; exact fun h => hc (Option.some.inj h)),
        readItems_writeItems level rest v vs hitems hsurvive]
      · rfl
      · simp only [length_cons, length_append] at hn
        omega
  | @obj fields hkeys hwhole hfields ih =>
    have hall := writableFields_iff.1 hwrite
    cases fields with
    | nil => rfl
    | cons f fs =>
      obtain ⟨name, v⟩ := f
      obtain ⟨⟨key, rfl⟩, hnames⟩ := exists_whole hwhole
      have hsurvive : ∀ f ∈ (.whole key, v) :: fs, f.2.Survives := by
        intro f hf level n rest hrest hn
        obtain ⟨k, rfl⟩ : ∃ k, n = k + 1 := ⟨n - 1, by omega⟩
        exact ih f hf (hall f hf) level rest hrest k hn
      have hspace (cs : List Char) : skipSpace (writeString key ++ cs) = writeString key ++ cs :=
        skipSpace_cons rfl _
      simp only [writeAt, Name.write, cons_append, append_assoc, nil_append] at hn ⊢
      rw [readValue_obj ((skipSpace_newLine _ _).trans (hspace _))
        (by rw [writeString_append]; exact fun h => absurd (Option.some.inj h) (by decide)),
        readFields_writeFields level rest key v fs [] hkeys hnames hfields hsurvive]
      · rfl
      · simp only [length_cons, length_append] at hn
        omega

/-- **The file of a value holds the value.** -/
theorem Exact.read_writeFile (h : v.Exact) (hwrite : v.writable = true) :
    read v.writeFile = .ok v := by
  obtain ⟨c, cs, hcs, -, hc, -⟩ := h.writeAt_eq_cons 0
  have hmark : (writeAt 0 v).head? ≠ some (Char.ofNat 0xFEFF) := by
    rw [hcs]
    intro hmark
    rw [Option.some.inj hmark] at hc
    exact absurd hc (by decide)
  have hspace := h.skipSpace_writeAt 0 []
  have hread := h.survives hwrite 0 (2 * (writeAt 0 v).length + 2) [] closed_nil (by omega)
  rw [append_nil] at hspace hread
  rw [read, writeFile, String.toList_ofList, readChars, if_neg hmark, hspace, hread]
  rfl

/-! ## Line ends -/

theorem not_mem_escapeChar (c : Char) : '\r' ∉ escapeChar c := by
  have hdigit (n : Nat) : '\r' ≠ Text.hexDigit (n % 16) := by
    have hall : ∀ d < 16, '\r' ≠ Text.hexDigit d := by decide
    exact hall _ (Nat.mod_lt n (by decide))
  unfold escapeChar
  repeat' split
  all_goals first
    | decide
    | exact fun h => ‹¬c = '\r'› (mem_singleton.1 h).symm
    | simp [hexDigits_four, hdigit]

theorem not_mem_writeString (s : String) : '\r' ∉ writeString s := by
  intro h
  rw [writeString, mem_cons, mem_append, mem_flatMap] at h
  obtain h | ⟨c, -, hc⟩ | h := h
  · exact absurd h (by decide)
  · exact not_mem_escapeChar c hc
  · exact absurd h (by decide)

theorem not_mem_write (h : name.isWhole) : '\r' ∉ name.write fileHalf := by
  cases name with
  | whole s => exact not_mem_writeString s
  | torn => cases h

theorem not_mem_newLine (level : Nat) : '\r' ∉ newLine level := by
  intro h
  rw [newLine, mem_cons, mem_replicate] at h
  obtain h | ⟨-, h⟩ := h <;> exact absurd h (by decide)

theorem not_mem_writeInt (n : Int) : '\r' ∉ writeInt n := by
  have hdigits : '\r' ∉ Nat.toDigits 10 n.natAbs := fun h => absurd (isDigit_toDigits _ _ h) (by decide)
  unfold writeInt
  split
  · exact fun h => hdigits (mem_of_ne_of_mem (by decide) h)
  · exact hdigits

theorem not_mem_writeItems {level : Nat} {vs : List Json} (h : ∀ v ∈ vs, '\r' ∉ writeAt level v) :
    '\r' ∉ writeItems level vs := by
  induction vs with
  | nil => exact not_mem_nil
  | cons v vs ih =>
    obtain ⟨hv, hvs⟩ := forall_mem_cons.1 h
    simp [writeItems, not_mem_newLine, hv, ih hvs]

theorem not_mem_writeFields {level : Nat} {fs : Fields}
    (h : ∀ f ∈ fs, '\r' ∉ f.1.write fileHalf ∧ '\r' ∉ writeAt level f.2) : '\r' ∉ writeFields level fs := by
  induction fs with
  | nil => exact not_mem_nil
  | cons f fs ih =>
    obtain ⟨hf, hfs⟩ := forall_mem_cons.1 h
    simp [writeFields, not_mem_newLine, hf, ih hfs]

/-- **A file that holds a value has no carriage returns,** which reading a file would not keep. -/
theorem Exact.not_mem_writeAt (h : v.Exact) (level : Nat) : '\r' ∉ writeAt level v := by
  induction h generalizing level with
  | null => exact (by decide : '\r' ∉ "null".toList)
  | bool b =>
    cases b with
    | true => exact (by decide : '\r' ∉ "true".toList)
    | false => exact (by decide : '\r' ∉ "false".toList)
  | int n => exact not_mem_writeInt n
  | str s => exact not_mem_writeString s
  | @arr items _ ih =>
    cases items with
    | nil => exact (by decide : '\r' ∉ ['[', ']'])
    | cons v vs =>
      have hall := fun u hu => ih u hu (level + 1)
      obtain ⟨hv, hvs⟩ := forall_mem_cons.1 hall
      simp [writeAt, not_mem_newLine, hv, not_mem_writeItems hvs]
  | @obj fields _ hwhole _ ih =>
    cases fields with
    | nil => exact (by decide : '\r' ∉ ['{', '}'])
    | cons f fs =>
      have hall : ∀ g ∈ f :: fs, '\r' ∉ g.1.write fileHalf ∧ '\r' ∉ writeAt (level + 1) g.2 := by
        intro g hg
        exact ⟨not_mem_write (all_eq_true.1 hwhole g hg), ih g hg (level + 1)⟩
      obtain ⟨hf, hfs⟩ := forall_mem_cons.1 hall
      simp [writeAt, not_mem_newLine, hf, not_mem_writeFields hfs]

theorem Name.halves_of_isWhole (h : name.isWhole) : name.halves = [] := by
  cases name with
  | whole => rfl
  | torn => cases h

theorem halves_arr {items : List Json} : (arr items).halves = [] ↔ ∀ v ∈ items, v.halves = [] := by
  rw [halves]
  induction items with
  | nil => exact ⟨fun _ => forall_mem_nil _, fun _ => rfl⟩
  | cons v vs ih => rw [halvesOfItems, append_eq_nil_iff, ih, forall_mem_cons]

theorem halves_obj {fields : Fields} :
    (obj fields).halves = [] ↔ ∀ f ∈ fields, f.1.halves = [] ∧ f.2.halves = [] := by
  rw [halves]
  induction fields with
  | nil => exact ⟨fun _ => forall_mem_nil _, fun _ => rfl⟩
  | cons f fs ih => rw [halvesOfFields, append_eq_nil_iff, append_eq_nil_iff, ih, forall_mem_cons]

theorem Exact.halves_eq_nil (h : Exact v) : v.halves = [] := by
  induction h with
  | null | bool | int | str => rfl
  | arr _ ih => exact halves_arr.2 ih
  | obj _ hwhole _ ih =>
    refine halves_obj.2 fun f hf => ⟨?_, ih f hf⟩
    exact Name.halves_of_isWhole (all_eq_true.1 hwhole f hf)

/-! ## Setting fields -/

theorem keys_setField (key : Name) (v : Json) (fields : Fields) :
    (setField key v fields).map Prod.fst =
      if key ∈ fields.map Prod.fst then fields.map Prod.fst else fields.map Prod.fst ++ [key] := by
  induction fields with
  | nil => rfl
  | cons f fields ih =>
    rw [setField]
    by_cases hf : f.1 = key
    · simp [hf]
    · rw [if_neg hf, map_cons, ih]
      by_cases hmem : key ∈ fields.map Prod.fst
      · simp [hmem]
      · simp [hmem, Ne.symm hf]

theorem mem_setField {f : Name × Json} (h : f ∈ setField name v fields) :
    f = (name, v) ∨ f ∈ fields := by
  induction fields with
  | nil =>
    rw [mem_singleton.1 h]
    exact .inl rfl
  | cons g fields ih =>
    rw [setField] at h
    split at h
    next hname =>
      subst hname
      exact (mem_cons.1 h).imp_right (mem_cons_of_mem g)
    · obtain rfl | h := mem_cons.1 h
      · exact .inr mem_cons_self
      · exact (ih h).imp_right (mem_cons_of_mem g)

theorem Exact.setField (h : (Json.obj fields).Exact) (name : Name) (hname : name.isWhole) (hv : v.Exact) :
    (Json.obj (setField name v fields)).Exact := by
  cases h with
  | obj hkeys hwhole hfields =>
    refine .obj ?_ (all_eq_true.2 fun f hf => ?_) fun f hf => ?_
    · rw [keys_setField]
      split
      next => exact hkeys
      next hnew =>
        refine nodup_append.2 ⟨hkeys, by simp, ?_⟩
        intro a ha b hb hab
        rw [hab, mem_singleton.1 hb] at ha
        exact hnew ha
    · obtain rfl | hf := mem_setField hf
      · exact hname
      · exact all_eq_true.1 hwhole f hf
    · obtain rfl | hf := mem_setField hf
      · exact hv
      · exact hfields f hf

end ScriptWorkbench.Json
