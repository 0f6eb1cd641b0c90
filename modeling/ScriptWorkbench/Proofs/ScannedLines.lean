/-
Scanning line by line (`scan_line_by_line`).

What the scanner has made of a text when a line end comes mostly stays: every token is read the same, and a
character or an escape that is refused is refused again. Only two failures can be mended by more lines, a
string literal that is still open and a text that ran off its end. Behind the line end the scanner starts in
the first column of the line below, and where that line is shows in the places of the tokens and nowhere else.
-/
import ScriptWorkbench.Proofs.Tiling

namespace ScriptWorkbench.Token

/-! ## Moving down -/

def Position.down (n : Nat) (p : Position) : Position := ⟨p.line + n, p.column⟩

theorem Position.advance_down (n k : Nat) (p : Position) :
    (p.down n).advance k = (p.advance k).down n := rfl

theorem Position.nextLine_down (n : Nat) (p : Position) :
    (p.down n).nextLine = p.nextLine.down n := by
  simp only [nextLine, down]
  congr 1
  omega

theorem Position.afterGap_down (n : Nat) (p : Position) (c : Char) :
    (p.down n).afterGap c = (p.afterGap c).down n := by
  rw [afterGap, afterGap, nextLine_down, advance_down]
  split <;> rfl

theorem Position.nextLine_eq_down (p : Position) : p.nextLine = Position.start.down p.line := by
  rw [nextLine, start, down, Nat.add_comm]

def ScanError.down (n : Nat) : ScanError → ScanError
  | .unexpected c p => .unexpected c (p.down n)
  | .unterminated p => .unterminated (p.down n)
  | .badEscape c p => .badEscape c (p.down n)
  | .ranOff => .ranOff

def Piece.down {α : Type} (n : Nat) (f : α → α) (t : Piece α) : Piece α :=
  ⟨f t.value, t.position.down n, t.rest⟩

end Token

def Token.down (n : Nat) (t : Token) : Token := { t with position := t.position.down n }

namespace Token

open List

variable {p : Position} {cs more : List Char} {e : ScanError}

def lowered {α : Type} (n : Nat) (f : α → α) : Except ScanError α → Except ScanError α
  | .ok a => .ok (f a)
  | .error e => .error (e.down n)

theorem skipLine_down (n : Nat) (p : Position) (cs : List Char) :
    skipLine (p.down n) cs = ((skipLine p cs).1.down n, (skipLine p cs).2) := by
  fun_induction skipLine p cs with
  | case1 p => rfl
  | case2 p cs => rw [skipLine, if_pos rfl, Position.nextLine_down]
  | case3 p c cs hc ih => rw [skipLine, if_neg hc, Position.advance_down, ih]

theorem skipBlock_down (n : Nat) (p : Position) (cs : List Char) :
    skipBlock (p.down n) cs = lowered n (fun r => (r.1.down n, r.2)) (skipBlock p cs) := by
  fun_induction skipBlock p cs with
  | case1 p | case2 p cs => rfl
  | case3 p c cs hne ih =>
    have hplace : (if c = '\n' then (p.down n).nextLine.advance 1 else (p.down n).advance 1) =
        (if c = '\n' then p.nextLine.advance 1 else p.advance 1).down n := by
      split
      · rw [Position.nextLine_down, Position.advance_down]
      · rw [Position.advance_down]
    rw [skipBlock, hplace, ih]
    exact hne

theorem stringTail_down (n : Nat) (start p : Position) (cs : List Char) :
    stringTail (start.down n) (p.down n) cs = lowered n (Piece.down n id) (stringTail start p cs) := by
  fun_induction stringTail start p cs with
  | case1 p | case2 p | case5 p cs => rfl
  | case3 p e cs he => rw [stringTail, he]; rfl
  | case4 p e cs c he ih =>
    rw [stringTail, he]
    rw [Position.advance_down, ih]
    cases stringTail start (p.advance 2) cs <;> rfl
  | case6 p c cs hne hc ih =>
    rw [stringTail, if_neg hc, Position.advance_down, ih]
    · cases stringTail start (p.advance 1) cs <;> rfl
    · exact hne

theorem lexeme_down (n : Nat) (p : Position) (c : Char) (cs : List Char) :
    lexeme (p.down n) c cs = lowered n (Piece.down n (Token.down n)) (lexeme p c cs) := by
  unfold lexeme
  split
  · rfl
  · split
    · rfl
    · split
      · rfl
      · split
        · rfl
        · split
          · rw [Position.advance_down, stringTail_down]
            cases stringTail p (p.advance 1) cs <;> rfl
          · rfl

theorem nextToken_down (n : Nat) (p : Position) (cs : List Char) :
    nextToken (p.down n) cs = lowered n (Piece.down n (Token.down n)) (nextToken p cs) := by
  fun_induction nextToken p cs with
  | case1 p => rw [nextToken]; rfl
  | case2 p cs e he => rw [nextToken_block, Position.advance_down, skipBlock_down, he]; rfl
  | case3 p cs r hr ih =>
    rw [nextToken_block, Position.advance_down, skipBlock_down, hr]
    exact ih
  | case4 p c cs hne =>
    rw [nextToken]
    · exact lexeme_down n p c cs
    · exact hne

/-- **A text further down has the same tokens, further down.** -/
theorem scanFrom_down (n : Nat) (p : Position) (cs : List Char) :
    scanFrom (p.down n) cs = lowered n (map (Token.down n)) (scanFrom p cs) := by
  fun_induction scanFrom p cs with
  | case1 p => rw [scanFrom]; rfl
  | case2 p c cs hc ih => rw [scanFrom_gap hc, Position.afterGap_down, ih]
  | case3 p c cs hc hcomment =>
    rename_i ih
    rw [scanFrom_comment (by simpa using hc) hcomment, Position.advance_down, skipLine_down]
    exact ih
  | case4 p c cs hc hcomment e he =>
    rw [scanFrom_token (by simpa using hc) (by simpa using hcomment), nextToken_down, he]
    rfl
  | case5 p c cs hc hcomment t ht ih =>
    rw [scanFrom_token (by simpa using hc) (by simpa using hcomment), nextToken_down, ht]
    change (scanFrom (t.position.down n) t.rest).map (t.value.down n :: ·) = _
    rw [ih]
    cases scanFrom t.position t.rest <;> rfl

/-! ## More lines -/

def ScanError.stays : ScanError → Bool
  | .unexpected .. | .badEscape .. => true
  | .unterminated _ | .ranOff => false

theorem skipBlock_append {r : Position × List Char} (ds : List Char) (h : skipBlock p cs = .ok r) :
    skipBlock p (cs ++ ds) = .ok (r.1, r.2 ++ ds) := by
  obtain ⟨q, rest⟩ := r
  obtain ⟨body, hbody, rfl⟩ := skipBlock_split h
  rw [skipBlock_body hbody] at h
  cases h
  rw [append_assoc, cons_append, cons_append, skipBlock_body hbody]

theorem stringTail_append {start : Position} (h : stringTail start p cs = .error e) (he : e.stays = true)
    (ds : List Char) : stringTail start p (cs ++ ds) = .error e := by
  fun_induction stringTail start p cs with
  | case1 | case2 => cases h; cases he
  | case3 p d cs hd =>
    rw [cons_append, cons_append, stringTail, hd]
    exact h
  | case4 p d cs c hd ih =>
    rw [cons_append, cons_append, stringTail, hd]
    rw [ih (map_eq_error h)]
    rfl
  | case5 => cases h
  | case6 p c cs hne hc ih =>
    rw [cons_append, stringTail, if_neg hc, ih (map_eq_error h)]
    · rfl
    · exact hne

theorem nextToken_append (h : nextToken p cs = .error e) (he : e.stays = true) (hmore : Lines more) :
    nextToken p (cs ++ more) = .error e := by
  fun_induction nextToken p cs with
  | case1 p => cases h; cases he
  | case2 p cs e' he' =>
    -- an open comment is no failure that stays
    obtain rfl := skipBlock_eq_error he'
    cases h
    cases he
  | case3 p cs r hr ih =>
    rw [cons_append, cons_append, nextToken_block, skipBlock_append _ hr]
    exact ih h
  | case4 p c cs hne =>
    rw [cons_append, nextToken_lexeme]
    · obtain ⟨rfl, htail⟩ | ⟨hdouble, -, hrefused⟩ := lexeme_eq_error h
      · rw [lexeme_quote, stringTail_append htail he]
        rfl
      · exact hrefused _ (doubleSymbol?_eq_none.2 (hmore.alone (doubleSymbol?_eq_none.1 hdouble)))
    · rintro rfl hstar
      obtain ⟨cs', rfl⟩ := head?_eq_some_iff.1 (hmore.head? hstar (by decide))
      exact hne cs' rfl rfl

theorem AtToken.append (h : AtToken cs) (hmore : Lines more) : AtToken (cs ++ more) := by
  obtain ⟨c, rest, rfl, hc, hcomment⟩ := h
  refine ⟨c, rest ++ more, rfl, hc, Bool.eq_false_iff.2 fun hstarts => ?_⟩
  obtain ⟨mark, behind, hmark, hbehind⟩ := startsLineComment_iff.1 hstarts
  obtain heq | heq := mem_lineMarks.1 hmark <;> cases heq
  · cases hcomment
  · have hslash : (rest ++ more).head? = some '/' := by rw [hbehind]; rfl
    obtain ⟨rest', rfl⟩ := head?_eq_some_iff.1 (hmore.head? hslash (by decide))
    cases hcomment

/-! ## A text and more lines -/

theorem lines_cons (ds : List Char) : Lines ('\n' :: ds) := by
  rintro _ ⟨⟩
  rfl

theorem scanFrom_unended_line {tail : List Char} (h : Unended tail) (p : Position) (ds : List Char) :
    scanFrom p (tail ++ '\n' :: ds) = scanFrom (p.after tail).nextLine ds := by
  cases h with
  | nothing => exact scanFrom_gap rfl p ds
  | comment hmark hbody =>
    rw [append_assoc, cons_append, scanFrom_mark hmark, (skipLine_body hbody _).2, Position.after_append]

/-- **A text that is scanned, and more lines.** The tokens of the text come first, and what follows is
scanned from the first column of the line below its end. -/
theorem scanFrom_append_line {ts : List Token} (h : scanFrom p cs = .ok ts) :
    ∃ (us : List Token) (q : Position), ts = us ++ [⟨.endOfInput, "", q⟩] ∧ ∀ ds,
      scanFrom p (cs ++ '\n' :: ds) = (scanFrom q.nextLine ds).map (us ++ ·) := by
  obtain ⟨left, us, q, -, hrun, ⟨hend, hok⟩ | ⟨-, e, -, herror⟩⟩ := scanFrom_cases p cs
  · rw [hok] at h
    cases h
    exact ⟨us, _, rfl, fun ds => by rw [hrun _ (lines_cons ds), scanFrom_unended_line hend]⟩
  · rw [herror] at h
    cases h

/-- **A failure that stays,** whatever lines follow. -/
theorem scanFrom_append_line_error (h : scanFrom p cs = .error e) (he : e.stays = true) (ds : List Char) :
    scanFrom p (cs ++ '\n' :: ds) = .error e := by
  have hmore := lines_cons ds
  obtain ⟨left, us, q, -, hrun, ⟨-, hok⟩ | ⟨hleft, e', hnext, herror⟩⟩ := scanFrom_cases p cs
  · rw [hok] at h
    cases h
  · rw [herror] at h
    cases h
    rw [hrun _ hmore, (hleft.append hmore).scanFrom, nextToken_append hnext he hmore]
    rfl

theorem scan_append_line (a b : String) :
    scan (a ++ "\n" ++ b) = scanFrom .start (a.toList ++ '\n' :: b.toList) := by
  rw [scan, String.toList_append, String.toList_append, append_assoc]
  rfl

/-- **Scanning goes line by line.** If a text is scanned and the end of its input is on some line, then the
text followed by a line end and another text has its tokens without that end, and behind them those of the
other text, that many lines further down and in the same columns; and if the other text fails to be scanned
then the two together fail in the same way, that many lines further down. -/
theorem scan_line_by_line (a b : String) (ts : List Token) (h : scan a = .ok ts) :
    ∃ us eof, ts = us ++ [eof] ∧ eof.kind = .endOfInput ∧
      (∀ vs, scan b = .ok vs → scan (a ++ "\n" ++ b) = .ok (us ++ vs.map (Token.down eof.position.line))) ∧
      ∀ e, scan b = .error e → scan (a ++ "\n" ++ b) = .error (e.down eof.position.line) := by
  obtain ⟨us, q, rfl, hmore⟩ := scanFrom_append_line h
  have hboth : scan (a ++ "\n" ++ b) =
      (lowered q.line (List.map (Token.down q.line)) (scan b)).map (us ++ ·) := by
    rw [scan_append_line, hmore, Position.nextLine_eq_down, scanFrom_down]
    rfl
  refine ⟨us, _, rfl, rfl, fun vs hvs => ?_, fun e he => ?_⟩
  · rw [hboth, hvs]
    rfl
  · rw [hboth, he]
    rfl

/-- A number that ends with a point, and a line comment that is still open, before a name and before a
string literal that is never closed. -/
theorem scan_line_by_line_open_comment :
    scan ("1. #" ++ "\n" ++ "y") = .ok [⟨.number, "1.", ⟨1, 1⟩⟩, ⟨.identifier, "y", ⟨2, 1⟩⟩,
        ⟨.endOfInput, "", ⟨2, 2⟩⟩] ∧
      scan ("1. #" ++ "\n" ++ " \"y") = .error (.unterminated ⟨2, 2⟩) := by
  have hfirst : scan "1. #" = .ok ([⟨.number, "1.", ⟨1, 1⟩⟩] ++ [⟨.endOfInput, "", ⟨1, 5⟩⟩]) :=
    eq_ok_of_toOption (by decide +kernel)
  have hname : scan "y" = .ok [⟨.identifier, "y", ⟨1, 1⟩⟩, ⟨.endOfInput, "", ⟨1, 2⟩⟩] :=
    eq_ok_of_toOption (by decide +kernel)
  have hopen : scan " \"y" = .error (.unterminated ⟨1, 2⟩) := by
    change scanFrom .start [' ', '"', 'y'] = _
    rw [scanFrom_gap rfl, scanFrom_token rfl rfl, nextToken]
    · rfl
    · rintro _ ⟨⟩
  obtain ⟨us, eof, hts, -, hread, -⟩ := scan_line_by_line "1. #" "y" _ hfirst
  obtain ⟨us', eof', hts', -, -, hfail⟩ := scan_line_by_line "1. #" " \"y" _ hfirst
  obtain ⟨rfl, heof⟩ := List.append_inj' hts rfl
  obtain ⟨-, heof'⟩ := List.append_inj' hts' rfl
  cases heof
  cases heof'
  exact ⟨hread _ hname, hfail _ hopen⟩

end ScriptWorkbench.Token
