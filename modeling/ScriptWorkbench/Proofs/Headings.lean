/-
The headings in a text, and the signatures that are read off it.

What the pattern of signatures finds at a place can be said without it: a heading is the letters `func`,
blanks, a name, an opening parenthesis behind blanks or none, a list of parameters, and the closing
parenthesis behind which an arrow or an opening brace comes next. **The signatures of a text are those of its
headings,** from the left and without overlap (`placed_signatures`): no element of the pattern can take what
the next one begins with, so there is only one way to match, up to the length of the list.
-/
import ScriptWorkbench.Package.Signature
import ScriptWorkbench.Proofs.PatternWays
import ScriptWorkbench.Proofs.Offside

namespace ScriptWorkbench

open List hiding dropPrefix?

deriving instance DecidableEq for Pattern

namespace Package

open Pattern Text

variable {c : Char} {cs : List Char}

/-! ## Headings -/

/-- A heading in its stretches, and the text behind it. -/
structure Heading where
  opening : List Char
  name : List Char
  between : List Char
  parameters : List Char
  closing : List Char
  rest : List Char
deriving Repr, DecidableEq

def Heading.text (h : Heading) : List Char :=
  h.opening ++ (h.name ++ (h.between ++ (h.parameters ++ h.closing)))

def ending? (cs : List Char) : Option (List Char × List Char) :=
  match cs.dropWhile isBlank with
  | '-' :: '>' :: rest => some (cs.takeWhile isBlank ++ ['-', '>'], rest)
  | '{' :: rest => some (cs.takeWhile isBlank ++ ['{'], rest)
  | _ => none

/-- A list of parameters up to the first closing parenthesis that an arrow or a brace follows, the stretch
from there to the arrow or the brace, and what follows. -/
def parameterList? : List Char → Option (List Char × List Char × List Char)
  | [] => none
  | c :: cs =>
    ((if c = ')' then ending? cs else none).map fun e => ([], c :: e.1, e.2)).or
      ((parameterList? cs).map fun l => (c :: l.1, l.2))

def heading? (cs : List Char) : Option Heading :=
  (dropPrefix? ['f', 'u', 'n', 'c'] cs).bind fun cs =>
    let gap := cs.takeWhile isBlank
    let cs := cs.dropWhile isBlank
    let name := cs.takeWhile isWordChar
    let cs := cs.dropWhile isWordChar
    let gap' := cs.takeWhile isBlank
    if gap = [] ∨ name = [] then none
    else
      match cs.dropWhile isBlank with
      | '(' :: cs =>
        (parameterList? cs).map fun l =>
          ⟨'f' :: 'u' :: 'n' :: 'c' :: gap, name, gap' ++ ['('], l.1, l.2.1, l.2.2⟩
      | _ => none

/-- The headings of a text from the left, without overlap, each with the position where it begins. The
first characters, as many as `skip` says, are passed over. -/
def headingsFrom (position skip : Nat) : List Char → List (Nat × Heading)
  | [] => []
  | c :: cs =>
    match skip with
    | skip + 1 => headingsFrom (position + 1) skip cs
    | 0 =>
      match heading? (c :: cs) with
      | some h => (position, h) :: headingsFrom (position + 1) (h.text.length - 1) cs
      | none => headingsFrom (position + 1) 0 cs

def Heading.signature (h : Heading) : Signature :=
  ⟨String.ofList h.name, parametersOf (String.ofList h.parameters), ""⟩

/-! ## What a heading is made of -/

theorem eq_of_dropPrefix? {p rest : List Char} (h : dropPrefix? p cs = some rest) :
    cs = p ++ rest := by
  induction p generalizing cs with
  | nil => exact Option.some.inj h
  | cons x p ih =>
    cases cs with
    | nil => cases h
    | cons c cs =>
      rw [dropPrefix?] at h
      split at h
      next hc => rw [hc, ih h]; rfl
      next => cases h

theorem eq_of_ending? {e : List Char × List Char} (h : ending? cs = some e) :
    cs = e.1 ++ e.2 := by
  have hcs := (takeWhile_append_dropWhile (p := isBlank) (l := cs)).symm
  rw [ending?] at h
  split at h
  next rest heq => cases h; rw [heq] at hcs; simpa using hcs
  next rest heq => cases h; rw [heq] at hcs; simpa using hcs
  next => cases h

theorem eq_of_parameterList? {l : List Char × List Char × List Char}
    (h : parameterList? cs = some l) : cs = l.1 ++ (l.2.1 ++ l.2.2) := by
  induction cs generalizing l with
  | nil => cases h
  | cons c cs ih =>
    rw [parameterList?, Option.or_eq_some_iff] at h
    obtain h | ⟨-, h⟩ := h
    · obtain ⟨e, he, rfl⟩ := Option.map_eq_some_iff.1 h
      split at he
      next => rw [eq_of_ending? he]; rfl
      next => cases he
    · obtain ⟨l', hl', rfl⟩ := Option.map_eq_some_iff.1 h
      rw [ih hl']
      rfl

theorem isBlank_of_isWordChar (h : isWordChar c = true) : isBlank c = false :=
  isBlank_of_isNameChar h

theorem isWordChar_of_isBlank (h : isBlank c = true) : isWordChar c = false := by
  cases hc : isWordChar c with
  | false => rfl
  | true => rw [isBlank_of_isWordChar hc] at h; cases h

theorem stops_at_gap {gap : List Char} (hgap : ∀ c ∈ gap, isBlank c = true)
    (hc : isWordChar c = false) (rest : List Char) :
    ∀ d ∈ (gap ++ c :: rest).head?, isWordChar d = false := by
  cases gap with
  | nil => rintro d ⟨⟩; exact hc
  | cons b gap => rintro d ⟨⟩; exact isWordChar_of_isBlank (hgap b mem_cons_self)

/-- **A text begins with a heading** if it falls into the stretches of one. -/
theorem heading?_eq_some_iff {h : Heading} :
    heading? cs = some h ↔ ∃ gap gap' tail,
      (gap ≠ [] ∧ ∀ c ∈ gap, isBlank c = true) ∧
      (h.name ≠ [] ∧ ∀ c ∈ h.name, isWordChar c = true) ∧
      (∀ c ∈ gap', isBlank c = true) ∧
      h.opening = ['f', 'u', 'n', 'c'] ++ gap ∧ h.between = gap' ++ ['('] ∧
      parameterList? tail = some (h.parameters, h.closing, h.rest) ∧
      cs = ['f', 'u', 'n', 'c'] ++ (gap ++ (h.name ++ (gap' ++ '(' :: tail))) := by
  constructor
  · intro hcs
    rw [heading?, Option.bind_eq_some_iff] at hcs
    obtain ⟨rest, hrest, hcs⟩ := hcs
    dsimp only at hcs
    split at hcs
    next => cases hcs
    next hne =>
      rw [not_or] at hne
      split at hcs
      next tail heq =>
        obtain ⟨l, hl, rfl⟩ := Option.map_eq_some_iff.1 hcs
        have hall (test : Char → Bool) (cs : List Char) : ∀ c ∈ cs.takeWhile test, test c = true :=
          all_eq_true.1 all_takeWhile
        refine ⟨_, _, tail, ⟨hne.1, hall _ _⟩, ⟨hne.2, hall _ _⟩, hall _ _, rfl, rfl, hl, ?_⟩
        rw [eq_of_dropPrefix? hrest, ← heq, takeWhile_append_dropWhile,
          takeWhile_append_dropWhile, takeWhile_append_dropWhile]
      next => cases hcs
  · obtain ⟨opening, name, between, parameters, closing, rest⟩ := h
    rintro ⟨gap, gap', tail, ⟨hgap, hblank⟩, ⟨hname, hword⟩, hblank', rfl, rfl, hl, rfl⟩
    -- each stretch ends where the next one begins
    obtain ⟨c, cs, rfl⟩ := exists_cons_of_ne_nil hname
    have hc := hword c mem_cons_self
    have hfirst := @takeWhile_append_of_stop _ _ (c :: cs ++ (gap' ++ '(' :: tail)) hblank
      (by rintro d ⟨⟩; exact isBlank_of_isWordChar hc)
    have hsecond := takeWhile_append_of_stop hword (stops_at_gap hblank' (c := '(') (by decide) tail)
    have hthird := @takeWhile_append_of_stop _ _ ('(' :: tail) hblank' (by rintro d ⟨⟩; decide)
    have hdrop : ∀ more, dropPrefix? ['f', 'u', 'n', 'c'] (['f', 'u', 'n', 'c'] ++ more) = some more :=
      fun more => rfl
    rw [heading?, hdrop, Option.bind_some]
    dsimp only
    rw [hfirst.1, hfirst.2, hsecond.1, hsecond.2, hthird.1, hthird.2, if_neg (by simp [hgap])]
    change (parameterList? tail).map _ = _
    rw [hl]
    rfl

theorem eq_of_heading? {h : Heading} (hcs : heading? cs = some h) :
    cs = h.text ++ h.rest := by
  obtain ⟨gap, gap', tail, -, -, -, hopening, hbetween, htail, rfl⟩ := heading?_eq_some_iff.1 hcs
  rw [eq_of_parameterList? htail, Heading.text, hopening, hbetween]
  simp

theorem length_text_pos {h : Heading} (hcs : heading? cs = some h) :
    0 < h.text.length := by
  obtain ⟨gap, gap', tail, -, -, -, hopening, -, -, -⟩ := heading?_eq_some_iff.1 hcs
  rw [Heading.text, hopening]
  simp

/-! ## Headings from the left -/

theorem headingsFrom_skip (position skip : Nat) (cs : List Char) :
    headingsFrom position skip cs = headingsFrom (position + skip) 0 (cs.drop skip) := by
  induction cs generalizing position skip with
  | nil => rw [drop_nil]; rfl
  | cons c cs ih =>
    cases skip with
    | zero => rfl
    | succ skip => rw [headingsFrom, ih, drop_succ_cons, Nat.add_assoc, Nat.add_comm 1]

theorem headingsFrom_of_heading {h : Heading} (hcs : heading? cs = some h) (position : Nat) :
    headingsFrom position 0 cs = (position, h) :: headingsFrom (position + h.text.length) 0 h.rest := by
  have htext := eq_of_heading? hcs
  have hpos := length_text_pos hcs
  cases cs with
  | nil => cases hcs
  | cons c cs =>
    have hrest : cs.drop (h.text.length - 1) = h.rest := by
      have hdrop : (c :: cs).drop (h.text.length - 1 + 1) = h.rest := by
        rw [Nat.sub_add_cancel hpos, htext, drop_left]
      exact hdrop
    rw [headingsFrom, hcs]
    dsimp only
    rw [headingsFrom_skip, hrest, Nat.add_assoc, Nat.add_sub_cancel' hpos]

theorem headingsFrom_of_none (h : heading? (c :: cs) = none) (position : Nat) :
    headingsFrom position 0 (c :: cs) = headingsFrom (position + 1) 0 cs := by
  rw [headingsFrom, h]

theorem heading?_of_mem_headingsFrom {position : Nat} {n : Nat} {h : Heading}
    (hmem : (n, h) ∈ headingsFrom position 0 cs) :
    ∃ k, n = position + k ∧ heading? (cs.drop k) = some h := by
  induction hlen : cs.length using Nat.strongRecOn generalizing position cs with
  | ind len ih =>
    subst hlen
    cases hcs : heading? cs with
    | some h' =>
      rw [headingsFrom_of_heading hcs, mem_cons] at hmem
      have htext := eq_of_heading? hcs
      have hpos := length_text_pos hcs
      obtain heq | hmem := hmem
      · cases heq
        exact ⟨0, rfl, hcs⟩
      · have hshorter : h'.rest.length < cs.length := by
          rw [htext, length_append]
          omega
        obtain ⟨k, rfl, hk⟩ := ih _ hshorter hmem rfl
        refine ⟨h'.text.length + k, by omega, ?_⟩
        rw [htext, ← drop_drop, drop_left]
        exact hk
    | none =>
      cases cs with
      | nil => cases hmem
      | cons c cs =>
        rw [headingsFrom_of_none hcs] at hmem
        obtain ⟨k, rfl, hk⟩ := ih _ (Nat.lt_succ_self _) hmem rfl
        exact ⟨k + 1, by omega, hk⟩

/-! ## The pattern of a signature -/

def blanks : Atom := .set ⟨false, [.blank true]⟩ ⟨false, false⟩ false

def endingPattern : Pattern :=
  .seq (.either (.seq (charOf '-') (.seq (charOf '>') .nothing)) (.seq (charOf '{') .nothing)) .nothing

def closingPattern : Pattern :=
  .seq (charOf ')') (.seq (.repeated (single blanks) 0 none .greedy) endingPattern)

def listPattern : Pattern :=
  .seq (.repeated (single blanks) 0 none .greedy) (.seq (charOf '(')
    (.seq (.group 2 (.seq (.repeated (single (.any true)) 0 none .sparing) .nothing)) closingPattern))

def endingWay : Way := fun rest position marks =>
  (Way.char '-' (.char '>' .stop) rest position marks).or (Way.char '{' .stop rest position marks)

def closingWay : Way := .char ')' (.many isBlank 0 endingWay)

def listWay : Way := .many isBlank 0 (.char '(' (.mark (.sparing (.mark closingWay))))

def signatureWay : Way :=
  .word ['f', 'u', 'n', 'c'] (.many isBlank 1 (.mark (.many isWordChar 1 (.mark listWay))))

theorem ne_of_isBlank {d : Char} (hc : isBlank c = true) (hd : isBlank d = false) :
    c ≠ d := by
  rintro rfl
  rw [hc] at hd
  cases hd

theorem follows_ending : Follows 4 (fun p => run false endingPattern p .ok) endingWay := by
  have hstop := follows_nothing false (follows_stop 4)
  refine follows_seq false (follows_either (follows_seq false (follows_char '-' false
    (follows_seq false (follows_char '>' false hstop)))) ?_)
  exact follows_seq false (follows_char '{' false hstop)

theorem follows_closing : Follows 4 (fun p => run false closingPattern p .ok) closingWay := by
  refine follows_seq false (follows_char ')' false (follows_seq false
    (follows_many takes_blank rfl 0 follows_ending ?_)))
  intro c rest position marks hc _
  rw [endingWay, Way.char_cons, if_neg (ne_of_isBlank hc (by decide)), Way.char_cons,
    if_neg (ne_of_isBlank hc (by decide))]
  rfl

theorem follows_list : Follows 2 (fun p => run false listPattern p .ok) listWay := by
  refine follows_seq false (follows_many takes_blank rfl 0 (follows_seq false (follows_char '('
    false (follows_seq false (follows_group rfl follows_closing fun hlast =>
      follows_seq false (follows_sparing (follows_nothing false hlast)))))) ?_)
  intro c rest position marks hc _
  rw [Way.char_cons, if_neg (ne_of_isBlank hc (by decide))]

/-- **The pattern has one way.** Nothing that is repeated can be followed by a character of its kind. -/
theorem follows_signature : Follows 0 (fun p => run false signaturePattern p .ok) signatureWay := by
  refine follows_seq false (follows_char 'f' false (follows_seq false (follows_char 'u' false (follows_seq false
      (follows_char 'n' false (follows_seq false (follows_char 'c' false (follows_seq false
        (follows_many takes_blank rfl 1 (follows_seq false (follows_group rfl follows_list fun hlast =>
          follows_seq false (follows_many takes_word rfl 1 (follows_nothing false hlast) ?_))) ?_)))))))))
  · intro c rest position marks hc _
    have hparen : c ≠ '(' := by
      rintro rfl
      exact absurd hc (by decide)
    rw [Way.mark, listWay, Way.many_of_stop (by rintro d ⟨⟩; exact isBlank_of_isWordChar hc), if_pos rfl,
      Way.char_cons, if_neg hparen]
  · intro c rest position marks hc _
    rw [Way.mark, Way.many_of_stop (by rintro d ⟨⟩; exact isWordChar_of_isBlank hc), if_neg (by decide)]

/-! ## The way of the pattern leads over the heading -/

def Heading.marks (position : Nat) (h : Heading) : Marks :=
  let name := position + h.opening.length
  let parameters := name + h.name.length + h.between.length
  [some name, some (name + h.name.length), some parameters, some (parameters + h.parameters.length)]

theorem many_endingWay (rest : List Char) (position : Nat) (marks : Marks) :
    Way.many isBlank 0 endingWay rest position marks =
      (ending? rest).map fun e => ⟨e.2, position + e.1.length, marks⟩ := by
  rw [Way.many, if_pos (Nat.zero_le _), ending?]
  generalize rest.dropWhile isBlank = rest
  split
  next => simp [endingWay, Way.char_cons, Way.stop, Nat.add_assoc]
  next => simp [endingWay, Way.char_cons, Way.stop, Nat.add_assoc]
  next harrow hbrace =>
    cases rest with
    | nil => rfl
    | cons c rest =>
      have hc : c ≠ '{' := fun heq => hbrace rest (by rw [heq])
      rw [endingWay, Way.char_cons, Way.char_cons]
      split
      next heq =>
        cases rest with
        | nil => rfl
        | cons d rest =>
          have hd : d ≠ '>' := fun heq' => harrow rest (by rw [heq, heq'])
          rw [Way.char_cons, if_neg hd]
          rfl
      next => rfl

theorem sparing_closingWay (rest : List Char) (position : Nat) (marks : Marks) :
    Way.sparing closingWay.mark rest position marks =
      (parameterList? rest).map fun l =>
        ⟨l.2.2, position + l.1.length + l.2.1.length, marks ++ [some (position + l.1.length)]⟩ := by
  induction rest generalizing position with
  | nil => rfl
  | cons c rest ih =>
    have hhere : closingWay.mark (c :: rest) position marks =
        ((if c = ')' then ending? rest else none).map fun e => ([], c :: e.1, e.2)).map
          fun l : List Char × List Char × List Char =>
            ⟨l.2.2, position + l.1.length + l.2.1.length, marks ++ [some (position + l.1.length)]⟩ := by
      rw [Way.mark, closingWay, Way.char_cons]
      split
      next => simp [many_endingWay, Function.comp_def, Nat.add_assoc, Nat.add_comm 1]
      next => rfl
    rw [Way.sparing, hhere, ih, parameterList?, Option.map_or, Option.map_map _ _ (parameterList? rest)]
    simp only [Function.comp_def, length_cons, Nat.add_assoc, Nat.add_comm 1]

/-- **The way of the pattern leads over the heading.** -/
theorem signatureWay_eq (rest : List Char) (position : Nat) :
    signatureWay rest position [] =
      (heading? rest).map fun h => ⟨h.rest, position + h.text.length, h.marks position⟩ := by
  rw [signatureWay, Way.word_eq, heading?, Option.map_bind]
  cases dropPrefix? ['f', 'u', 'n', 'c'] rest with
  | none => rfl
  | some rest =>
    rw [Option.bind_some, Option.bind_some, Function.comp_apply, Way.many]
    dsimp only
    generalize rest.takeWhile isBlank = gap
    generalize rest.dropWhile isBlank = rest
    by_cases hgap : gap = []
    · rw [if_neg (by rw [hgap]; decide), if_pos (Or.inl hgap)]
      rfl
    · have hlong : 1 ≤ gap.length := length_pos_iff.2 hgap
      rw [if_pos hlong, Way.mark, Way.many]
      generalize rest.takeWhile isWordChar = name
      generalize rest.dropWhile isWordChar = rest
      by_cases hname : name = []
      · rw [if_neg (by rw [hname]; decide), if_pos (Or.inr hname)]
        rfl
      · have hlong' : 1 ≤ name.length := length_pos_iff.2 hname
        rw [if_pos hlong', if_neg (not_or.2 ⟨hgap, hname⟩), Way.mark, listWay, Way.many,
          if_pos (Nat.zero_le _)]
        generalize rest.dropWhile isBlank = rest
        split
        next more =>
          rw [Way.char_cons, Way.mark, sparing_closingWay]
          cases parameterList? more with
          | none => rfl
          | some l =>
            simp [Heading.text, Heading.marks]
            omega
        next hparen =>
          cases rest with
          | nil => rfl
          | cons c rest =>
            rw [Way.char_cons, if_neg fun hc => hparen rest (by rw [hc])]
            rfl

/-! ## Searching -/

def Heading.found (position : Nat) (h : Heading) : Found :=
  ⟨position, position + h.text.length, h.marks position⟩

theorem matchAt_signature {p : Place} (hp : p.marks = []) :
    match heading? p.rest with
    | none => matchAt signaturePattern false p = none
    | some h => ∃ q, matchAt signaturePattern false p = some (h.found p.position, q) ∧
        q.rest = h.rest ∧ q.position = p.position + h.text.length ∧ q.marks = [] := by
  have hmatch := matchAt_of_follows follows_signature hp
  rw [signatureWay_eq] at hmatch
  cases hheading : heading? p.rest with
  | none | some h => rwa [hheading] at hmatch

/-- **The next match is the next heading.** -/
theorem searchFrom_signature {p : Place} (hp : p.marks = []) :
    headingsFrom p.position 0 p.rest = [] ∧ searchFrom signaturePattern false p.rest p = none ∨
      ∃ n h q, headingsFrom p.position 0 p.rest = (n, h) :: headingsFrom q.position 0 q.rest ∧
        searchFrom signaturePattern false p.rest p = some (h.found n, q) ∧ q.marks = [] ∧
        q.rest.length < p.rest.length ∧ 0 < h.text.length := by
  induction hrest : p.rest generalizing p with
  | nil =>
    have hmatch := matchAt_signature hp
    rw [hrest] at hmatch
    exact .inl ⟨rfl, hmatch⟩
  | cons c rest ih =>
    have hmatch := matchAt_signature hp
    rw [hrest] at hmatch
    cases hheading : heading? (c :: rest) with
    | some h =>
      rw [hheading] at hmatch
      obtain ⟨q, hq, hqrest, hqposition, hqmarks⟩ := hmatch
      have htext := eq_of_heading? hheading
      have hpos := length_text_pos hheading
      refine .inr ⟨p.position, h, q, ?_, ?_, hqmarks, ?_, hpos⟩
      · rw [headingsFrom_of_heading hheading, hqrest, hqposition]
      · rw [searchFrom, hq]
        rfl
      · rw [hqrest, htext, length_append]
        omega
    | none =>
      rw [hheading] at hmatch
      have hsearch : searchFrom signaturePattern false (c :: rest) p =
          searchFrom signaturePattern false rest (p.step c rest) := by
        rw [searchFrom, hmatch]
        rfl
      rw [hsearch, headingsFrom_of_none hheading]
      obtain hnone | ⟨n, h, q, hlist, hfound, hmarks, hlen, hpos⟩ := @ih (p.step c rest) hp rfl
      · exact .inl hnone
      · exact .inr ⟨n, h, q, hlist, hfound, hmarks, Nat.lt_succ_of_lt hlen, hpos⟩

theorem findAllFrom_signature {budget : Nat} {p : Place} (hp : p.marks = [])
    (hbudget : p.rest.length < budget) :
    findAllFrom signaturePattern budget false p =
      (headingsFrom p.position 0 p.rest).map fun e => e.2.found e.1 := by
  induction budget generalizing p with
  | zero => omega
  | succ budget ih =>
    rw [findAllFrom]
    obtain ⟨hlist, hsearch⟩ | ⟨n, h, q, hlist, hsearch, hmarks, hlen, hpos⟩ := searchFrom_signature hp
    · rw [hlist, hsearch]
      rfl
    · have hmoved : ((h.found n).first == (h.found n).last) = false := by
        rw [beq_eq_false_iff_ne, Heading.found]
        dsimp only
        omega
      rw [hlist, hsearch]
      dsimp only
      rw [hmoved, ih hmarks (by omega), map_cons]

theorem take_drop_stretch {cs before stretch behind : List Char} {n : Nat}
    (h : cs.drop n = before ++ (stretch ++ behind)) :
    (cs.drop (n + before.length)).take stretch.length = stretch := by
  rw [← drop_drop, h, drop_left, take_left]

theorem signatureOf_found {n : Nat} {h : Heading} (hcs : heading? (cs.drop n) = some h) :
    signatureOf cs (h.found n) = h.signature := by
  have htext := eq_of_heading? hcs
  rw [Heading.text] at htext
  simp only [append_assoc] at htext
  have hname := take_drop_stretch htext
  have hparameters := @take_drop_stretch cs (h.opening ++ (h.name ++ h.between)) h.parameters
    (h.closing ++ h.rest) n (by simpa using htext)
  simp only [length_append, ← Nat.add_assoc] at hparameters
  simp [signatureOf, Heading.signature, Heading.found, Heading.marks, Found.group?, hname, hparameters]

/-- **The signatures of a text are those of its headings,** each with the place where it begins. -/
theorem placed_signatures (cs : List Char) :
    (signaturePattern.findAll cs).map (fun m => (m.first, signatureOf cs m)) =
      (headingsFrom 0 0 cs).map fun e => (e.1, e.2.signature) := by
  have hfind : signaturePattern.findAll cs = (headingsFrom 0 0 cs).map fun e => e.2.found e.1 := by
    exact findAllFrom_signature rfl (by show cs.length < 2 * cs.length + 2; omega)
  rw [hfind, map_map]
  refine map_congr_left fun e he => ?_
  obtain ⟨k, hk, hheading⟩ := heading?_of_mem_headingsFrom he
  rw [Nat.zero_add] at hk
  rw [Function.comp_apply, hk, signatureOf_found hheading]
  rfl

end Package

end ScriptWorkbench
