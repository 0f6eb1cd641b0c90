/-
The caret of a report.

A report shows the line of a problem behind its number, and below it a caret in a line of its own. The text
before the line grows with the number, the one before the caret does not (`caret_below_iff`). Colour codes
take no room.
-/
import ScriptWorkbench.Proofs.Splitting
import ScriptWorkbench.Report

namespace ScriptWorkbench.Report

open List

/-! ## Room -/

/-- What is seen of a text. A colour code, from an escape character to the next `m`, is not. -/
def seen (inCode : Bool) : List Char → List Char
  | [] => []
  | c :: cs =>
    if inCode then seen (c != 'm') cs else if c = '\x1b' then seen true cs else c :: seen false cs

def room (s : String) : Nat := (seen false s.toList).length

theorem seen_append {cs : List Char} (h : '\x1b' ∉ cs) (rest : List Char) :
    seen false (cs ++ rest) = cs ++ seen false rest := by
  induction cs with
  | nil => rfl
  | cons c cs ih =>
    rw [mem_cons, not_or] at h
    simp [seen, Ne.symm h.1, ih h.2]

theorem seen_inCode {cs : List Char} (h : 'm' ∉ cs) (rest : List Char) :
    seen true (cs ++ 'm' :: rest) = seen false rest := by
  induction cs with
  | nil => rfl
  | cons c cs ih =>
    rw [mem_cons, not_or] at h
    simpa [seen, bne_iff_ne.2 (Ne.symm h.1)] using ih h.2

theorem not_mem_toDigits {c : Char} (hc : c.isDigit = false) (n : Nat) : c ∉ Nat.toDigits 10 n := fun h => by
  simp [Nat.isDigit_of_mem_toDigits (by decide) (by decide) h] at hc

theorem room_append {s : String} (h : '\x1b' ∉ s.toList) (t : String) : room (s ++ t) = s.toList.length + room t := by
  rw [room, String.toList_append, seen_append h, length_append, room]

theorem toList_code (n : Nat) : (code n).toList = '\x1b' :: (('[' :: Nat.toDigits 10 n) ++ ['m']) := by
  rw [code]
  simp [toString]

theorem room_code (n : Nat) (t : String) : room (code n ++ t) = room t := by
  rw [room, String.toList_append, toList_code, cons_append, append_assoc]
  exact congrArg _ (seen_inCode (by simp [not_mem_toDigits]) _)

/-! ## The two lines -/

/-- What stands before the text of a line. -/
def lead (line : Nat) : String := "  " ++ colored purple (toString line ++ " |") ++ " "

/-- What stands before the caret of a column. -/
def indent (column : Nat) : String :=
  "    " ++ colored purple "|" ++ " " ++ String.ofList (List.replicate (column - 1) ' ') ++ code red

theorem room_lead (line : Nat) : room (lead line) = 5 + (Nat.toDigits 10 line).length := by
  have hline : (toString line).toList = Nat.toDigits 10 line := by simp
  have hplain : '\x1b' ∉ (toString line).toList := hline ▸ not_mem_toDigits (by decide) line
  rw [lead, colored]
  simp only [String.append_assoc]
  rw [room_append (by decide), room_code, room_append hplain, room_append (by decide), room_code, hline]
  change 2 + (_ + (2 + 1)) = _
  omega

theorem room_indent (column : Nat) : room (indent column) = 6 + (column - 1) := by
  have hcode : room (code red) = 0 := by simpa [room, seen] using room_code red ""
  rw [indent, colored]
  simp only [String.append_assoc]
  rw [room_append (by decide), room_code, room_append (by decide), room_code, room_append (by decide),
    room_append (by simp), hcode]
  simp; omega

theorem length_toDigits_eq_one_iff (n : Nat) : (Nat.toDigits 10 n).length = 1 ↔ n < 10 := by
  by_cases hn : n < 10
  · simp [Nat.toDigits_of_lt_base hn, hn]
  · rw [Nat.toDigits_of_base_le (by decide) (by omega)]
    have := length_pos_iff.2 (Nat.toDigits_ne_nil (n := n / 10) (b := 10))
    simp; omega

/-! ## The report -/

section Report

variable (path message hint : Json) (source : String) (line column : Nat)

theorem sourceLine_int {source : String} {line : Nat} (h : 1 ≤ line ∧ line ≤ (Text.lines source).length) :
    ∃ text, sourceLine (.str source) (.int line) = .ok text ∧ (Text.lines source)[line - 1]? = some text := by
  have hindex : (line : Int) - 1 = ((line - 1 : Nat) : Int) := by omega
  have hlt : line - 1 < (Text.lines source).length := by omega
  refine ⟨(Text.lines source)[line - 1], ?_, getElem?_eq_getElem hlt⟩
  change lineAt (Text.lines source) line = _
  rw [lineAt, if_neg (by omega), if_pos (by omega), hindex]
  change Except.ok (getD _ _ _) = _
  rw [getD_eq_getElem?_getD, getElem?_eq_getElem hlt, Option.getD_some]

theorem caretIndent_int {column : Nat} (h : 1 ≤ column) : caretIndent (.int column) =
    if countLimit < column then .error .columnTooFar
    else .ok (String.ofList (replicate (column - 1) ' ')) := by
  have hless : (Json.int column).minus (.int 1) = .ok (.int (column - 1 : Nat)) :=
    congrArg (Except.ok <| Json.int ·) (show (column : Int) - 1 = _ by omega)
  have hiff : countLimit ≤ column - 1 ↔ countLimit < column := by omega
  simp only [caretIndent, hless, Int.natAbs_natCast, Int.toNat_natCast, hiff]

theorem numberedLine_int (text : String) :
    numberedLine (.int line) text = "\n" ++ (lead line ++ text) ++ "\n" := by
  have hstart : "\n  " = "\n" ++ "  " := rfl
  have hnumber : (Json.int line).display = toString line := rfl
  rw [numberedLine, lead, hstart, hnumber]
  simp only [String.append_assoc]

theorem caretLine_blanks :
    caretLine (String.ofList (replicate (column - 1) ' ')) = indent column ++ "^" ++ code 0 ++ "\n" := by
  simp only [caretLine, indent, colored, String.append_assoc]

theorem not_mem_lead {source : String} {line : Nat} {text : String} (h : (Text.lines source)[line - 1]? = some text) :
    '\n' ∉ (lead line ++ text).toList := by
  obtain ⟨piece, hpiece, rfl⟩ := mem_map.1 (mem_of_getElem? h)
  simp [lead, colored, toList_code, not_mem_toDigits, (Text.splitOnChar_piece hpiece).1]

theorem not_mem_indent : '\n' ∉ (indent column ++ "^" ++ code 0).toList := by
  simp [indent, colored, toList_code, not_mem_toDigits]

/-- **The caret.** A report on a line of the source shows this line, and below it the caret of any column that can be
counted to. The caret is as far right as the character of the column when the line number has one digit, and further
to the left by one place for each digit more. -/
theorem caret_below_iff (h : 1 ≤ line ∧ line ≤ (Text.lines source).length) (hcolumn : 1 ≤ column) :
    (countLimit < column →
      (report path (.str source) ⟨message, .int line, .int column, hint⟩).2 = some .columnTooFar) ∧
    (column ≤ countLimit → ∃ above text below,
      report path (.str source) ⟨message, .int line, .int column, hint⟩ =
        (above ++ "\n" ++ (lead line ++ text) ++ "\n" ++ (indent column ++ "^" ++ code 0) ++ "\n" ++ below, none) ∧
      (Text.lines source)[line - 1]? = some text ∧
      '\n' ∉ (lead line ++ text).toList ∧ '\n' ∉ (indent column ++ "^" ++ code 0).toList) ∧
    room (indent column) + (Nat.toDigits 10 line).length = room (lead line) + column ∧
    (room (indent column) = room (lead line) + (column - 1) ↔ line < 10) := by
  obtain ⟨text, hsource, htext⟩ := sourceLine_int h
  refine ⟨fun hfar => ?_, fun hnear => ?_, ?_, ?_⟩
  · simp [report, body, isGiven, hsource, caretIndent_int hcolumn, hfar]
  · refine ⟨"\n" ++ colored red (title ⟨message, .int line, .int column, hint⟩) ++ "\n" ++
      statement path ⟨message, .int line, .int column, hint⟩, text,
      hintText hint ++ ending ⟨message, .int line, .int column, hint⟩, ?_, htext, not_mem_lead htext,
      not_mem_indent column⟩
    simp [report, body, isGiven, hsource, caretIndent_int hcolumn, Nat.not_lt.2 hnear, numberedLine_int,
      caretLine_blanks, String.append_assoc]
  · rw [room_indent, room_lead]
    omega
  · rw [room_indent, room_lead, ← length_toDigits_eq_one_iff]
    have := List.length_pos_iff.2 (Nat.toDigits_ne_nil (n := line) (b := 10))
    omega

theorem caret_below_ninth : (1 ≤ 9 ∧ 9 ≤ (Text.lines "\n\n\n\n\n\n\n\nif").length) ∧
    (room (indent 2) = room (lead 9) + (2 - 1) ↔ 9 < 10) := by
  have h : 1 ≤ 9 ∧ 9 ≤ (Text.lines "\n\n\n\n\n\n\n\nif").length := by decide +kernel
  exact ⟨h, (caret_below_iff .null .null .null _ 9 2 h (by decide)).2.2.2⟩

theorem caret_before_tenth :
    (∃ above below, report .null (.str "\n\n\n\n\n\n\n\n\nif") ⟨.null, .int 10, .int 2, .null⟩ =
      (above ++ "\n" ++ (lead 10 ++ "if") ++ "\n" ++ (indent 2 ++ "^" ++ code 0) ++ "\n" ++ below, none)) ∧
    room (indent 2) ≠ room (lead 10) + (2 - 1) :=
  ⟨⟨"\n" ++ colored red "--- Error de Sintaxis en OPN ---" ++ "\n" ++ statement .null ⟨.null, .int 10, .int 2, .null⟩,
    ending ⟨.null, .int 10, .int 2, .null⟩, by decide +kernel⟩, by decide +kernel⟩

end Report

end ScriptWorkbench.Report
