/-
The rows of a script, and the tokens that open them.

A row is a line with what an editor's look at it depends on: where the line starts, the quote that is taken to
be open before it, and the lines behind it. If a token starts at the first visible character, the words that
an editor finds at the start of the row are the start of that token (`startsStatement_iff`, `headed_iff`), as
no name goes on behind the token. Otherwise the row is blank, or it starts in a comment or in a string
(`hidden_of_unopened`).
-/
import ScriptWorkbench.Lint
import ScriptWorkbench.Proofs.SourceSlices
import ScriptWorkbench.Proofs.Splitting
import ScriptWorkbench.Studio.Marks

namespace ScriptWorkbench

open Text Token Studio List

variable {rest text : List Char} {c : Char} {n : Nat} {ss : List Slice}

/-! ## Rows -/

/-- A line of a script: where it starts, the quote that is open before it, its text, and the lines
behind it. -/
structure Row where
  start : Nat
  quote : Option Char
  line : List Char
  later : List (List Char)

namespace Row

def quoteAfter (r : Row) : Option Char :=
  if Marks.isSilent r.line then r.quote else openQuoteFrom none r.quote r.line

def watched (r : Row) : Bool := !Marks.isSilent r.line && (openQuoteFrom none r.quote r.line).isNone

def body (r : Row) : List Char := Marks.trimmed r.line

def place (r : Row) : Nat := r.start + (r.line.takeWhile isBlank).length

def onwards (r : Row) : List Char := (r.line :: r.later).flatten

end Row

def rowsFrom (start : Nat) (quote : Option Char) : List (List Char) → List Row
  | [] => []
  | line :: later =>
    let r : Row := ⟨start, quote, line, later⟩
    r :: rowsFrom (start + line.length + 1) r.quoteAfter later

def rows (text : List Char) : List Row := rowsFrom 0 none (splitOnChar '\n' text)

theorem map_line_rowsFrom (start : Nat) (quote : Option Char) (lines : List (List Char)) :
    (rowsFrom start quote lines).map Row.line = lines := by
  induction lines generalizing start quote with
  | nil => rfl
  | cons line later ih => rw [rowsFrom, map_cons, ih]

theorem drop_of_mem_rowsFrom {start : Nat} {quote : Option Char} {lines : List (List Char)} {r : Row}
    (hr : r ∈ rowsFrom start quote lines) : ∃ k, r.start = start + k ∧
      (k = 0 ∨ (['\n'].intercalate lines)[k - 1]? = some '\n') ∧
      (['\n'].intercalate lines).drop k = ['\n'].intercalate (r.line :: r.later) := by
  induction lines generalizing start quote with
  | nil => exact absurd hr not_mem_nil
  | cons line later ih =>
    obtain rfl | hlater := mem_cons.1 hr
    · exact ⟨0, rfl, .inl rfl, rfl⟩
    · obtain ⟨k, hk, hbefore, hdrop⟩ := ih hlater
      -- behind the first line and its line feed
      refine ⟨line.length + (k + 1), by omega, .inr ?_, ?_⟩
      all_goals rcases later with _ | ⟨next, rest⟩
      any_goals exact absurd hlater not_mem_nil
      all_goals rw [intercalate_cons_cons, append_assoc]
      · rw [← Nat.add_assoc, Nat.add_sub_cancel, getElem?_append_right (Nat.le_add_right _ _),
          Nat.add_sub_cancel_left]
        rcases k with _ | k
        · rfl
        · rcases hbefore with hzero | hbefore
          · cases hzero
          · exact hbefore
      · rw [← hdrop, drop_length_add_append]
        rfl

theorem drop_of_mem_rows {r : Row} (hr : r ∈ rows text) :
    text.drop r.start = ['\n'].intercalate (r.line :: r.later) := by
  obtain ⟨k, hk, -, hdrop⟩ := drop_of_mem_rowsFrom hr
  rwa [intercalate_splitOnChar, ← Nat.zero_add k, ← hk] at hdrop

theorem exists_tail_of_mem_rows {r : Row} (hr : r ∈ rows text) :
    ∃ tail, text.drop r.start = r.line ++ tail ∧ ∀ c ∈ tail.head?, c = '\n' := by
  rw [drop_of_mem_rows hr]
  cases r.later with
  | nil => exact ⟨[], by simp, by simp⟩
  | cons next rest =>
    exact ⟨'\n' :: ['\n'].intercalate (next :: rest), by simp, by simp⟩

theorem blank_before_place {r : Row} (hr : r ∈ rows text) :
    r.place = 0 ∨ ∃ c, text[r.place - 1]? = some c ∧ isBlank c = true := by
  obtain ⟨k, hk, hbefore, -⟩ := drop_of_mem_rowsFrom hr
  rw [intercalate_splitOnChar] at hbefore
  obtain ⟨tail, htail, -⟩ := exists_tail_of_mem_rows hr
  unfold Row.place
  -- the last of the blanks that the row starts with, or else the line feed before the row
  rcases eq_nil_or_concat (r.line.takeWhile isBlank) with hblanks | ⟨blanks, c, hblanks⟩
  · rw [hblanks]
    rcases hbefore with hzero | hbefore
    · simp [hk, hzero]
    · right
      exact ⟨'\n', by simpa [hk] using hbefore, by decide⟩
  · rw [concat_eq_append] at hblanks
    refine .inr ⟨c, ?_, ?_⟩
    · rw [hblanks, length_append, length_singleton, ← Nat.add_assoc, Nat.add_sub_cancel,
        ← getElem?_drop, htail, ← takeWhile_append_dropWhile (p := isBlank) (l := r.line),
        hblanks]
      simp
    · exact all_eq_true.1 all_takeWhile c (by rw [hblanks]; simp)

/-! ## Tokens at places -/

def tokenAt : List Slice → Nat → Option Slice
  | [], _ => none
  | s :: ss, n =>
    if n = s.gap.length then some s
    else if n < s.gap.length + s.text.length then none
    else tokenAt ss (n - (s.gap.length + s.text.length))

theorem exists_of_tokenAt {s : Slice} (h : tokenAt ss n = some s) :
    ∃ before behind, ss = before ++ s :: behind ∧ (joined ss).drop n = s.text ++ joined behind := by
  induction ss generalizing n with
  | nil => cases h
  | cons t ss ih =>
    rw [tokenAt] at h
    split at h
    next hn =>
      cases h
      exact ⟨[], ss, rfl, by rw [joined, hn, drop_left]⟩
    next =>
      split at h
      next => cases h
      next hn =>
        obtain ⟨before, behind, rfl, hdrop⟩ := ih h
        refine ⟨t :: before, behind, rfl, ?_⟩
        have hsplit : n = (t.gap ++ t.text).length + (n - (t.gap.length + t.text.length)) := by
          grind
        rw [joined, ← append_assoc, ← hdrop, hsplit, drop_length_add_append, ← hsplit]

theorem lexeme_of_tokenAt (hss : Sliced ss) {s : Slice} (h : tokenAt ss n = some s)
    (hne : (joined ss).drop n ≠ []) :
    ∃ rest, (joined ss).drop n = s.text ++ rest ∧ Lexeme s.text rest s.word := by
  obtain ⟨before, behind, rfl, hdrop⟩ := exists_of_tokenAt h
  have hlast := hss.drop
  refine ⟨joined behind, hdrop, ?_⟩
  cases hlast with
  | done => exact absurd hdrop hne
  | token _ _ htext _ => exact htext

theorem Token.Lexeme.word_of_starts {more : List Char} {w : Kind × String} (h : Lexeme text rest w)
    (htext : text ++ rest = c :: more) (hc : startsWord c = true) :
    (∀ d ∈ text, isNameChar d = true) ∧ StopsAt isNameChar rest ∧
      w = (wordKind (String.ofList text), String.ofList text) := by
  -- no other lexeme starts with a letter
  cases h with
  | double hmem =>
    have hnone : ∀ x ∈ doubleSymbols, startsWord x.1.1 = false := by decide +kernel
    rw [(cons.inj htext).1] at hmem
    exact absurd (hnone _ hmem) (by simp [hc])
  | single hmem _ =>
    have hnone : ∀ x ∈ symbols, startsWord x.1 = false := by decide +kernel
    rw [(cons.inj htext).1] at hmem
    exact absurd (hnone _ hmem) (by simp [hc])
  | word hfirst hcs hstop =>
    exact ⟨forall_mem_cons.2 ⟨isNameChar_of_startsWord hfirst, hcs⟩, hstop, rfl⟩
  | whole hdigits | decimal hdigits =>
    have hdigit := not_startsWord_of_isDigit (hdigits _ mem_cons_self)
    rw [(cons.inj htext).1] at hdigit
    exact absurd hc hdigit
  | text =>
    rw [← (cons.inj htext).1] at hc
    exact absurd hc (by decide)

/-! ## Hidden places -/

def hiddenAt : List Slice → Nat → Bool
  | [], _ => false
  | s :: ss, n =>
    if n < s.gap.length then true
    else if n < s.gap.length + s.text.length then s.kind == .text
    else hiddenAt ss (n - (s.gap.length + s.text.length))

def goesOn (c : Char) : Bool :=
  isNameChar c || isDigit c || doubleSymbols.any fun x => [x.1.1, x.1.2].contains c

theorem Token.Lexeme.mem_cases {w : Kind × String} (h : Lexeme text rest w) (hw : w.1 ≠ .text)
    (hc : c ∈ text) :
    (text.length = 1 ∧ (c, w.1) ∈ symbols) ∨ goesOn c = true := by
  have hname {c : Char} (hc : isNameChar c = true) : goesOn c = true := by simp [goesOn, hc]
  have hdigit {c : Char} (hc : isDigit c = true) : goesOn c = true := by simp [goesOn, hc]
  cases h with
  | double hmem =>
    have hpart : doubleSymbols.any (fun x => [x.1.1, x.1.2].contains c) = true :=
      any_eq_true.2 ⟨_, hmem, contains_iff_mem.2 hc⟩
    exact .inr (by rw [goesOn, hpart, Bool.or_true])
  | single hmem _ =>
    rw [mem_singleton] at hc
    exact .inl ⟨rfl, hc ▸ hmem⟩
  | word hfirst hcs _ =>
    right
    obtain rfl | hc := mem_cons.1 hc
    · exact hname (isNameChar_of_startsWord hfirst)
    · exact hname (hcs c hc)
  | whole hds _ _ => exact .inr (hdigit (hds c hc))
  | decimal hds hes _ _ =>
    right
    obtain hc | hc := mem_append.1 hc
    · exact hdigit (hds c hc)
    · obtain rfl | hc := mem_cons.1 hc
      · decide
      · exact hdigit (hes c hc)
  | text => exact absurd rfl hw

theorem visible_cases (hss : Sliced ss) (hn : (joined ss)[n]? = some c)
    (hvisible : hiddenAt ss n = false) :
    (∃ s, tokenAt ss n = some s ∧ (c, s.kind) ∈ symbols) ∨ goesOn c = true := by
  induction ss generalizing n with
  | nil => cases hn
  | cons s ss ih =>
    rw [hiddenAt] at hvisible
    split at hvisible
    · cases hvisible
    · next hgap =>
      rw [joined, getElem?_append_right (Nat.not_lt.1 hgap)] at hn
      rw [tokenAt]
      split at hvisible
      · next htext =>
        rw [getElem?_append_left (by omega)] at hn
        have hmem := mem_of_getElem? hn
        cases hss with
        | done => exact absurd hmem not_mem_nil
        | token _ _ hlexeme _ =>
          rcases hlexeme.mem_cases (by simpa [Slice.kind] using hvisible) hmem with ⟨hone, hsymbol⟩ | hc
          · rw [hone] at htext
            rw [if_pos (by omega)]
            exact .inl ⟨_, rfl, hsymbol⟩
          · exact .inr hc
      · next hbehind =>
        rw [getElem?_append_right (by omega), Nat.sub_sub] at hn
        have hrest := ih hss.tail hn hvisible
        by_cases hstart : n = s.gap.length
        · have hempty : s.text.length = 0 := by omega
          cases hss with
          | done => cases hn
          | token _ _ hlexeme _ =>
            obtain ⟨_, _, rfl, -⟩ := hlexeme.head
            cases hempty
        · rwa [if_neg hstart, if_neg hbehind]

theorem hiddenAt_of_blank_or_colon (hss : Sliced ss) (hn : (joined ss)[n]? = some c)
    (hc : isBlank c = true ∨ c = ':') : hiddenAt ss n = true := by
  have hsymbols : ∀ x ∈ symbols, isBlank x.1 = false ∧ x.1 ≠ ':' := by decide
  have hlonger : goesOn c = true → isBlank c = false ∧ c ≠ ':' := by
    intro hlong
    refine ⟨isBlank_eq_false hlong (by decide +kernel), ?_⟩
    rintro rfl
    exact absurd hlong (by decide)
  have hplain (h : isBlank c = false ∧ c ≠ ':') : False := by
    rw [h.1] at hc
    rcases hc with hc | hc
    · cases hc
    · exact h.2 hc
  refine Bool.of_not_eq_false fun hvisible => hplain ?_
  rcases visible_cases hss hn hvisible with ⟨s, -, hsymbol⟩ | hlong
  · exact hsymbols _ hsymbol
  · exact hlonger hlong

theorem tokenAt_ne_none (hn : n < (joined ss).length) (hvisible : hiddenAt ss n = false)
    (hbefore : n = 0 ∨ hiddenAt ss (n - 1) = true) :
    tokenAt ss n ≠ none := by
  induction ss generalizing n with
  | nil => exact absurd hn (Nat.not_lt_zero n)
  | cons s ss ih =>
    rw [hiddenAt] at hvisible
    rw [tokenAt]
    split
    · exact Option.some_ne_none s
    · next hstart =>
      split
      · next hinside =>
        -- the place before is in the gap or in the same lexeme
        split at hvisible
        · cases hvisible
        · next hgap =>
          rcases hbefore with hzero | hbefore
          · omega
          · rw [hiddenAt, if_neg (by omega), if_pos (by omega), hvisible] at hbefore
            cases hbefore
      · next hbehind =>
        rw [if_neg (by omega), if_neg hbehind] at hvisible
        rw [joined, length_append, length_append] at hn
        refine ih (by omega) hvisible ?_
        by_cases hfirst : n = s.gap.length + s.text.length
        · left
          omega
        · right
          rcases hbefore with hzero | hbefore
          · omega
          · rwa [hiddenAt, if_neg (by omega), if_neg (by omega), Nat.sub_right_comm] at hbefore

theorem prefix_of_stopsAt {p : Char → Bool} {w : List Char} (hw : ∀ c ∈ w, p c = true)
    (hstop : StopsAt p rest) (h : w <+: text ++ rest) : w <+: text := by
  induction text generalizing w with
  | nil =>
    rcases w with _ | ⟨c, w⟩
    · exact nil_prefix
    · obtain ⟨more, hmore⟩ := h
      rw [nil_append] at hmore
      have hc := hstop c (by rw [← hmore]; rfl)
      rw [hw c mem_cons_self] at hc
      exact absurd hc (by decide)
  | cons d text ih =>
    rcases w with _ | ⟨c, w⟩
    · exact nil_prefix
    · rw [cons_append, cons_prefix_cons] at h
      rw [cons_prefix_cons]
      exact ⟨h.1, ih (forall_mem_cons.1 hw).2 h.2⟩

/-! ## What rows start with -/

theorem exists_dropEndWhile (p : Char → Bool) (cs : List Char) :
    ∃ ds, cs = dropEndWhile p cs ++ ds ∧ ∀ d ∈ ds, p d = true := by
  refine ⟨(cs.reverse.takeWhile p).reverse, ?_, fun d hd => ?_⟩
  · rw [dropEndWhile, ← reverse_append, takeWhile_append_dropWhile, reverse_reverse]
  · exact all_eq_true.1 all_takeWhile d (mem_reverse.1 hd)

theorem drop_place {r : Row} (hr : r ∈ rows text) :
    ∃ rest, text.drop r.place = r.body ++ rest ∧ StopsAt (fun c => !isBlank c) rest := by
  obtain ⟨tail, htail, hhead⟩ := exists_tail_of_mem_rows hr
  obtain ⟨blanks, hvisible, hblanks⟩ := exists_dropEndWhile isBlank (r.line.dropWhile isBlank)
  refine ⟨blanks ++ tail, ?_, ?_⟩
  · rw [Row.place, ← drop_drop, htail, ← append_assoc, Row.body,
      Marks.trimmed, dropAround, ← hvisible]
    have hdrop (a b : List Char) (h : a ++ b = r.line) : (r.line ++ tail).drop a.length = b ++ tail := by
      rw [← h, append_assoc, drop_left]
    exact hdrop _ _ takeWhile_append_dropWhile
  · intro c hc
    rcases blanks with _ | ⟨b, blanks⟩
    · rw [hhead c hc]
      decide
    · have hb := hblanks b mem_cons_self
      rw [← Option.some.inj hc]
      simp [hb]

theorem hidden_of_unopened {source : String} (hss : Slices source ss) {r : Row}
    (hr : r ∈ rows source.toList) (hbody : r.body ≠ []) (hnone : tokenAt ss r.place = none) :
    hiddenAt ss r.place = true := by
  obtain ⟨rest, hdrop, -⟩ := drop_place hr
  have hlt : r.place < (joined ss).length := by
    rw [hss.text]
    refine Nat.lt_of_not_le fun hle => ?_
    rw [drop_eq_nil_of_le hle] at hdrop
    exact hbody (append_eq_nil_iff.1 hdrop.symm).1
  refine Bool.of_not_eq_false fun hvisible => tokenAt_ne_none hlt hvisible ?_ hnone
  rcases blank_before_place hr with hzero | ⟨c, hc, hblank⟩
  · exact .inl hzero
  · exact .inr (hiddenAt_of_blank_or_colon hss.sliced (hss.text.symm ▸ hc) (.inl hblank))

def headerTokens : List (Kind × String) :=
  [(.ifWord, "if"), (.identifier, "def"), (.forWord, "for"), (.whileWord, "while")]

namespace Row

def Headed (ss : List Slice) (r : Row) : Prop :=
  match tokenAt ss r.place with
  | some s => s.word ∈ headerTokens ∧ s.word.2.toList ++ [' '] <+: r.body
  | none => ∃ w ∈ headerTokens, w.2.toList ++ [' '] <+: r.body

def StartsStatement (ss : List Slice) (r : Row) : Prop :=
  match tokenAt ss r.place with
  | some s => ∃ w ∈ Marks.statementWords, w.toList <+: s.text
  | none => ∃ w ∈ Marks.statementWords, w.toList <+: r.body

end Row

section Opened

variable {source : String} {ss : List Slice} {r : Row} {s : Slice}

theorem word_of_opened (hss : Slices source ss) (hr : r ∈ rows source.toList)
    (hs : tokenAt ss r.place = some s) {more : List Char} (hbody : r.body = c :: more)
    (hc : startsWord c = true) :
    ∃ behind, r.body <+: s.text ++ behind ∧ (∀ d ∈ s.text, isNameChar d = true) ∧
      StopsAt isNameChar behind ∧ s.word = (wordKind (String.ofList s.text), String.ofList s.text) := by
  obtain ⟨rest, hdrop, -⟩ := drop_place hr
  rw [← hss.text, hbody] at hdrop
  obtain ⟨behind, hbehind, hlexeme⟩ := lexeme_of_tokenAt hss.sliced hs (by simp [hdrop])
  have htext := hbehind.symm.trans hdrop
  obtain ⟨hnames, hstop, hword⟩ := hlexeme.word_of_starts htext hc
  exact ⟨behind, ⟨rest, by rw [htext, hbody]⟩, hnames, hstop, hword⟩

def isWord : List Char → Bool
  | [] => false
  | c :: cs => startsWord c && (c :: cs).all isNameChar

theorem prefix_text_of_prefix_body (hss : Slices source ss) (hr : r ∈ rows source.toList)
    (hs : tokenAt ss r.place = some s) {w u : List Char} (hw : isWord w = true) (h : w ++ u <+: r.body) :
    ∃ more behind, s.text = w ++ more ∧ u <+: more ++ behind ∧ (∀ d ∈ s.text, isNameChar d = true) ∧
      s.word = (wordKind (String.ofList s.text), String.ofList s.text) := by
  rcases w with _ | ⟨c, w⟩
  · cases hw
  · obtain ⟨hc, hall⟩ := Bool.and_eq_true_iff.1 hw
    obtain ⟨rest, hrest⟩ := id h
    obtain ⟨behind, hbody, hnames, hstop, hword⟩ :=
      word_of_opened hss hr hs (hrest.symm.trans (by rw [append_assoc]; rfl)) hc
    obtain ⟨more, hmore⟩ := prefix_of_stopsAt (all_eq_true.1 hall) hstop
      (((prefix_append _ u).trans h).trans hbody)
    refine ⟨more, behind, hmore.symm, ?_, hnames, hword⟩
    rw [← hmore, append_assoc] at hbody
    exact (prefix_append_right_inj _).1 (h.trans hbody)

/-- **A row starts like a header** exactly if it is headed. -/
theorem headed_iff (hss : Slices source ss) (hr : r ∈ rows source.toList) :
    (∃ w ∈ headerTokens, w.2.toList ++ [' '] <+: r.body) ↔ r.Headed ss := by
  unfold Row.Headed
  split
  next s hs =>
    refine ⟨?_, fun h => ⟨_, h⟩⟩
    rintro ⟨w, hw, hprefix⟩
    have hwords : ∀ w ∈ headerTokens, isWord w.2.toList = true ∧ (wordKind w.2, w.2) = w := by
      decide +kernel
    obtain ⟨more, behind, htext, hspace, hnames, hword⟩ :=
      prefix_text_of_prefix_body hss hr hs (hwords w hw).1 hprefix
    -- a space does not belong to a name, so it is not in the token
    rcases more with _ | ⟨d, more⟩
    · rw [append_nil] at htext
      rw [htext, String.ofList_toList, (hwords w hw).2] at hword
      rw [hword]
      exact ⟨hw, hprefix⟩
    · obtain ⟨_, hspace⟩ := hspace
      have hd := hnames d (by simp [htext])
      rw [← (cons.inj hspace).1] at hd
      exact absurd hd (by decide)
  next => exact Iff.rfl

/-- **A row starts like a statement** exactly if the token that opens it does. -/
theorem startsStatement_iff (hss : Slices source ss) (hr : r ∈ rows source.toList) :
    (∃ w ∈ Marks.statementWords, w.toList <+: r.body) ↔ r.StartsStatement ss := by
  have hall : Marks.statementWords.all (fun w => isWord w.toList && w.toList.all (!isBlank ·)) = true :=
    by decide +kernel
  have hwords (w : String) (hw : w ∈ Marks.statementWords) : isWord w.toList = true ∧
      ∀ c ∈ w.toList, (!isBlank c) = true := by
    obtain ⟨hword, hvisible⟩ := Bool.and_eq_true_iff.1 (all_eq_true.1 hall w hw)
    exact ⟨hword, all_eq_true.1 hvisible⟩
  unfold Row.StartsStatement
  split
  next s hs =>
    constructor
    · -- the word is no longer than the token
      rintro ⟨w, hw, hprefix⟩
      obtain ⟨more, -, htext, -⟩ := prefix_text_of_prefix_body (u := []) hss hr hs (hwords w hw).1
        (by rwa [append_nil])
      exact ⟨w, hw, more, htext.symm⟩
    · -- the word has no blanks, so it does not go beyond the row
      rintro ⟨w, hw, hprefix⟩
      obtain ⟨rest, hdrop, hstop⟩ := drop_place hr
      obtain ⟨before, behind, -, htext⟩ := exists_of_tokenAt hs
      rw [hss.text, hdrop] at htext
      refine ⟨w, hw, prefix_of_stopsAt (hwords w hw).2 hstop ?_⟩
      rw [htext]
      exact hprefix.trans (prefix_append _ _)
  next => exact Iff.rfl

end Opened

end ScriptWorkbench
