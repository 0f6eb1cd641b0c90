/-
The descriptions of functions.

A description is looked for by a pattern that has the name of the function in it. What the pattern finds can
be said without it (`documentedSignatures_eq`). That only the first slashes count is not in the pattern: it
has a match at later ones if it has one at all. Main statement: `descriptions_of_text`.
-/
import ScriptWorkbench.Proofs.Headings
import ScriptWorkbench.Proofs.ParameterLists

namespace ScriptWorkbench

open List hiding dropPrefix? find?

open Text

namespace Pattern

/-! ## Reading a pattern -/

def dotted : Options := ⟨true, false, false, false, false, false, false⟩

def restOf (groups : Nat) (closed : List (Nat × Widths)) (signs : List Sign) : Rest :=
  ⟨.empty, dotted, groups, closed, [], [], none, signs, false⟩

section Reading

variable {n groups : Nat} {first : Bool} {closed : List (Nat × Widths)} {items : List Item} {c : Char}
  {rest : List Sign}

theorem take_restOf (sign : Sign) :
    (restOf groups closed (sign :: rest)).take = .ok (some sign, restOf groups closed rest) := by
  simp [Rest.take, Rest.skip, restOf, Except.map]

theorem skipIf_restOf (h : rest.head? ≠ some (.plain c)) :
    (restOf groups closed rest).skipIf c = .ok (false, restOf groups closed rest) := by
  refine if_neg fun hnext => h ?_
  rw [Rest.next?, restOf] at hnext
  split at hnext <;> simp_all

theorem skipIf_restOf_cons :
    (restOf groups closed (.plain c :: rest)).skipIf c = .ok (true, restOf groups closed rest) := by
  simp [Rest.skipIf, Rest.next?, Rest.skip, restOf, Except.map]

theorem not_spaced (b : Bool) : ¬((restOf groups closed rest).options.spaced && b) = true :=
  Bool.false_ne_true

theorem readSequence_end (h : rest = [] ∨ rest.head? = some (.plain ')')) :
    readSequence (n + 1) first items (restOf groups closed rest) =
      .ok (parts items, restOf groups closed rest) := by
  rw [readSequence, if_pos]
  · rfl
  · obtain rfl | h := h
    · exact .inl rfl
    · obtain ⟨more, rfl⟩ := head?_eq_some_iff.1 h
      exact .inr (.inr rfl)

theorem readSequence_escaped {e : Escape}
    (h : readEscape c (restOf groups closed rest) = .ok (e, restOf groups closed rest)) :
    readSequence (n + 1) first items (restOf groups closed (.escaped c :: rest)) =
      readSequence n first (escapeItem dotted e :: items) (restOf groups closed rest) := by
  rw [readSequence, take_restOf]
  dsimp only [bind, Except.bind]
  rw [h]
  rfl

theorem readSequence_plain (h : c ∉ ['|', ')', '[', '*', '+', '?', '{', '(']) :
    readSequence (n + 1) first items (restOf groups closed (.plain c :: rest)) =
      readSequence n first (plainItem dotted c :: items) (restOf groups closed rest) := by
  simp only [mem_cons, not_mem_nil, not_or] at h
  rw [readSequence, if_neg (by simp [restOf, Rest.next?, h]), take_restOf]
  dsimp only [bind, Except.bind]
  rw [if_neg (not_spaced _), if_neg (not_spaced _), if_neg (by simp [h]),
    if_neg (by simp [h]), if_neg (by simp [h])]
  rfl

theorem repeatLast_restOf {last : Item} (hlast : last.kind = .element)
    (hrest : rest.head? ≠ some (.plain '+')) (least left : Nat) :
    repeatLast (last :: items) (least, none) left (restOf groups closed rest) =
      .ok (if rest.head? = some (.plain '?') then
        (⟨[.repeated (together last.parts) least none .sparing], .repetition⟩ :: items,
          restOf groups closed rest.tail)
      else
        (⟨[.repeated (together last.parts) least none .greedy], .repetition⟩ :: items,
          restOf groups closed rest)) := by
  rw [repeatLast, if_neg (by rw [hlast]; decide), if_neg (by rw [hlast]; decide)]
  by_cases hsparing : rest.head? = some (.plain '?')
  · obtain ⟨more, rfl⟩ := head?_eq_some_iff.1 hsparing
    rw [skipIf_restOf_cons]
    rfl
  · rw [if_neg hsparing, skipIf_restOf hsparing]
    dsimp only [bind, Except.bind]
    rw [skipIf_restOf hrest]
    rfl

theorem readSequence_repeated {last : Item} (hlast : last.kind = .element) (least : Nat)
    (hc : (c, least) ∈ [('*', 0), ('+', 1)]) (hrest : rest.head? ≠ some (.plain '+')) :
    readSequence (n + 1) first (last :: items) (restOf groups closed (.plain c :: rest)) =
      if rest.head? = some (.plain '?') then
        readSequence n first (⟨[.repeated (together last.parts) least none .sparing], .repetition⟩ :: items)
          (restOf groups closed rest.tail)
      else
        readSequence n first (⟨[.repeated (together last.parts) least none .greedy], .repetition⟩ :: items)
          (restOf groups closed rest) := by
  have hsigns : c ≠ '|' ∧ c ≠ ')' ∧ c ≠ '[' ∧ (c = '*' ∨ c = '+' ∨ c = '?' ∨ c = '{') ∧
      readRepeat c (restOf groups closed rest) = .ok (some ((least, none), restOf groups closed rest)) := by
    simp only [mem_cons, not_mem_nil, or_false] at hc
    obtain ⟨rfl, rfl⟩ | ⟨rfl, rfl⟩ := hc <;> simp [readRepeat]
  obtain ⟨hbar, hparen, hbracket, hsign, hrepeat⟩ := hsigns
  rw [readSequence, if_neg (by simp [restOf, Rest.next?, hbar, hparen]), take_restOf]
  dsimp only [bind, Except.bind]
  rw [if_neg (not_spaced _), if_neg (not_spaced _), if_neg hbracket, if_pos hsign, hrepeat]
  dsimp only
  rw [repeatLast_restOf hlast hrest]
  dsimp only
  split <;> rfl

theorem readSequence_group {body : List Pattern} {more : List Sign} (hrest : rest.head? ≠ some (.plain '?'))
    (h : readSequence n false [] (restOf (groups + 1) closed rest) =
      .ok (body, restOf (groups + 1) closed (.plain ')' :: more))) :
    readSequence (n + 2) first items (restOf groups closed (.plain '(' :: rest)) =
      readSequence (n + 1) first (.plain (.group (groups + 1) (together body)) :: items)
        (restOf (groups + 1) ((groups + 1, ((together body).widths closed).clamp) :: closed) more) := by
  have hopening (start : Bool) (left : Nat) : readOpening start left (restOf groups closed rest) =
      .ok (.numbered, restOf (groups + 1) closed rest) := by
    rw [readOpening, skipIf_restOf hrest]
    rfl
  have henter : enter .numbered (restOf (groups + 1) closed rest) = restOf (groups + 1) closed rest := rfl
  have hbody : readAlternatives (n + 1) false (restOf (groups + 1) closed rest) =
      .ok ([body], restOf (groups + 1) closed (.plain ')' :: more)) := by
    rw [readAlternatives, h]
    rfl
  rw [readSequence, if_neg (by simp [restOf, Rest.next?]), take_restOf]
  dsimp only [bind, Except.bind]
  rw [if_neg (not_spaced _), if_neg (not_spaced _), hopening]
  dsimp only
  rw [henter, hbody]
  dsimp only [Except.map]
  rw [skipIf_restOf_cons]
  rfl

theorem readSequence_word {name : List Char} (h : ∀ c ∈ name, isWordChar c = true) :
    readSequence (n + name.length) first items (restOf groups closed (name.map .plain ++ rest)) =
      readSequence n first ((name.map fun c => .ofAtom (.one true c.toNat ⟨false, false⟩)).reverse ++ items)
        (restOf groups closed rest) := by
  induction name generalizing items with
  | nil => rfl
  | cons c name ih =>
    obtain ⟨hc, hname⟩ := forall_mem_cons.1 h
    have hsigns : ∀ d ∈ ['|', ')', '[', '*', '+', '?', '{', '('] ++ ['.', '^', '$'], c ≠ d := by
      rintro d hd rfl
      have hall : (['|', ')', '[', '*', '+', '?', '{', '('] ++ ['.', '^', '$']).all
          (fun d => !isWordChar d) = true := by decide +kernel
      simpa [hc] using all_eq_true.1 hall c hd
    have hitem : plainItem dotted c =
        .ofAtom (.one true c.toNat ⟨false, false⟩) := by
      rw [plainItem, if_neg (hsigns '.' (by decide)), if_neg (hsigns '^' (by decide)),
        if_neg (hsigns '$' (by decide))]
      rfl
    rw [length_cons, ← Nat.add_assoc, map_cons, cons_append, readSequence_plain
      fun hmem => hsigns c (mem_append_left _ hmem) rfl, ih hname, hitem]
    simp

end Reading

theorem signs_name {name : List Char} (h : ∀ c ∈ name, isWordChar c = true) (rest : List Char) :
    signs (name ++ rest) = (name.map .plain ++ (signs rest).1, (signs rest).2) := by
  induction name with
  | nil => rfl
  | cons c name ih =>
    obtain ⟨hc, hname⟩ := forall_mem_cons.1 h
    have hne : c ≠ '\\' := by
      rintro rfl
      exact absurd hc (by decide)
    rw [cons_append, signs, ih hname]
    · rfl
    · exact fun h1 _ => hne h1
    · exact fun d ds h1 _ => hne h1

theorem parts_cons (i : Item) (items : List Item) : parts (i :: items) = parts items ++ i.parts := by
  have hfoldl (items : List Item) (rest : List Pattern) :
      items.foldl (fun rest i => i.parts ++ rest) rest = parts items ++ rest := by
    induction items generalizing rest with
    | nil => rfl
    | cons i items ih =>
      rw [parts, foldl_cons, foldl_cons, ih, ih, append_nil, append_assoc]
  exact (hfoldl items (i.parts ++ [])).trans (by rw [append_nil])

theorem parts_reverse_append {name : List Char} {items : List Item} :
    parts ((name.map fun c => .ofAtom (.one true c.toNat ⟨false, false⟩)).reverse ++ items) =
      parts items ++ name.map charOf := by
  induction name generalizing items with
  | nil => simp
  | cons c name ih =>
    rw [map_cons, reverse_cons, append_assoc, singleton_append, ih, parts_cons]
    simp
    rfl

theorem sound_together {ps : List Pattern}
    (h : ∀ p ∈ ps, refusal? false p = none ∧ looksTooFar p = false) :
    refusal? false (together ps) = none ∧ looksTooFar (together ps) = false := by
  induction ps with
  | nil => exact ⟨rfl, rfl⟩
  | cons p ps ih =>
    obtain ⟨hp, hps⟩ := forall_mem_cons.1 h
    rw [together, refusal?, looksTooFar, hp.1, hp.2, (ih hps).1, (ih hps).2]
    exact ⟨rfl, rfl⟩

theorem follows_word {next : Next} {n : Nat} {w : Way} {ps : List Pattern}
    (h : Follows n (fun p => run false (together ps) p next) w) (cs : List Char) :
    Follows n (fun p => run false (together (cs.map charOf ++ ps)) p next) (.word cs w) := by
  induction cs with
  | nil => exact h
  | cons c cs ih => exact follows_seq false (follows_char c false ih)

end Pattern

namespace Package

open Pattern

variable {name cs : List Char} {position : Nat} {marks : Marks}

/-! ## The pattern of a description -/

def declarationParts (name : List Char) : List Pattern :=
  ['f', 'u', 'n', 'c'].map charOf ++ (.repeated (single blanks) 1 none .greedy ::
    (name.map charOf ++ [.repeated (single blanks) 0 none .greedy, charOf '(']))

def descriptionParts (name : List Char) : List Pattern :=
  ['/', '/'].map charOf ++ (.repeated (single blanks) 0 none .greedy ::
    .group 1 (.seq (.repeated (single (.any true)) 0 none .sparing) .nothing) :: declarationParts name)

def openingSigns : List Sign :=
  [.plain '/', .plain '/', .escaped 's', .plain '*', .plain '(', .plain '.', .plain '*', .plain '?',
    .plain ')', .plain 'f', .plain 'u', .plain 'n', .plain 'c', .escaped 's', .plain '+']

def closingSigns : List Sign := [.escaped 's', .plain '*', .escaped '(']

theorem read_group (n : Nat) (rest : List Sign) : readSequence (n + 3) false []
    (restOf 1 [] (.plain '.' :: .plain '*' :: .plain '?' :: .plain ')' :: rest)) =
      .ok ([.repeated (single (.any true)) 0 none .sparing], restOf 1 [] (.plain ')' :: rest)) := by
  rfl

theorem read_blank (groups : Nat) (closed : List (Nat × Widths)) (rest : List Sign) :
    readEscape 's' (restOf groups closed rest) = .ok (.kind (.blank true), restOf groups closed rest) := rfl

theorem read_paren (groups : Nat) (closed : List (Nat × Widths)) (rest : List Sign) :
    readEscape '(' (restOf groups closed rest) = .ok (.code '('.toNat, restOf groups closed rest) := rfl

theorem readSequence_description {name : List Char} (hne : name ≠ [])
    (h : ∀ c ∈ name, isWordChar c = true) (n : Nat) :
    readSequence (n + 4 + name.length + 11) true [] (restOf 0 []
      (openingSigns ++ (name.map .plain ++ closingSigns))) =
      .ok (descriptionParts name, restOf 1 [(1, ⟨0, noLimit⟩)] []) := by
  have hname : ∀ d ∈ ['+', '?'], (name.map Sign.plain ++ closingSigns).head? ≠ some (.plain d) := by
    obtain ⟨c, more, rfl⟩ := exists_cons_of_ne_nil hne
    have hall : ['+', '?'].all (fun d => !isWordChar d) = true := by decide +kernel
    rintro d hd ⟨⟩
    simpa [h c mem_cons_self] using all_eq_true.1 hall c hd
  simp only [openingSigns, cons_append, nil_append]
  rw [readSequence_plain (by decide), readSequence_plain (by decide),
    readSequence_escaped (read_blank _ _ _), readSequence_repeated rfl 0 (by decide) (by simp),
    if_neg (by simp), readSequence_group (by simp) (read_group _ _), readSequence_plain (by decide),
    readSequence_plain (by decide), readSequence_plain (by decide), readSequence_plain (by decide),
    readSequence_escaped (read_blank _ _ _),
    readSequence_repeated rfl 1 (by decide) (hname '+' (by decide)), if_neg (hname '?' (by decide)),
    readSequence_word h, closingSigns, readSequence_escaped (read_blank _ _ _),
    readSequence_repeated rfl 0 (by decide) (by simp), if_neg (by simp),
    readSequence_escaped (read_paren _ _ _), readSequence_end (.inl rfl), parts_cons, parts_cons,
    parts_reverse_append, append_assoc, append_assoc]
  rfl

/-- **The pattern of a description,** for the name of a heading. -/
theorem descriptionPattern_eq (hne : name ≠ []) (h : ∀ c ∈ name, isWordChar c = true) :
    descriptionPattern (String.ofList name) = together (descriptionParts name) := by
  have htext : ("//\\s*(.*?)func\\s+" ++ String.ofList name ++ "\\s*\\(").toList =
      openingSigns.flatMap Sign.text ++ (name ++ closingSigns.flatMap Sign.text) := by
    simp only [String.toList_append, String.toList_ofList]
    rfl
  have hsigns : signs (openingSigns.flatMap Sign.text ++ (name ++ closingSigns.flatMap Sign.text)) =
      (openingSigns ++ (name.map .plain ++ closingSigns), false) := by
    have hopening (rest : List Char) : signs (openingSigns.flatMap Sign.text ++ rest) =
        (openingSigns ++ (signs rest).1, (signs rest).2) := rfl
    rw [hopening, signs_name h]
    rfl
  have hbudget : 2 * (openingSigns.flatMap Sign.text ++
      (name ++ closingSigns.flatMap Sign.text)).length + 3 =
        name.length + 31 + 4 + name.length + 11 + 1 := by
    have hlength : (openingSigns.flatMap Sign.text).length = 17 ∧
        (closingSigns.flatMap Sign.text).length = 5 := ⟨rfl, rfl⟩
    simp only [length_append]
    omega
  have halternatives (n : Nat) : readAlternatives (n + 4 + name.length + 11 + 1) true
      (restOf 0 [] (openingSigns ++ (name.map .plain ++ closingSigns))) =
        .ok ([descriptionParts name], restOf 1 [(1, ⟨0, noLimit⟩)] []) := by
    rw [readAlternatives, readSequence_description hne h n]
    rfl
  have hsound : refusal? false (together (descriptionParts name)) = none ∧
      looksTooFar (together (descriptionParts name)) = false := by
    refine sound_together fun p hp => ?_
    simp only [descriptionParts, declarationParts, mem_append, mem_cons, mem_map, not_mem_nil, or_false] at hp
    obtain ⟨c, -, rfl⟩ | rfl | rfl | ⟨c, -, rfl⟩ | rfl | ⟨c, -, rfl⟩ | rfl | rfl := hp <;> exact ⟨rfl, rfl⟩
  have hread : Pattern.read .empty { Options.none with dotAll := true }
      ("//\\s*(.*?)func\\s+" ++ String.ofList name ++ "\\s*\\(").toList =
        .ok (together (descriptionParts name)) := by
    rw [htext, Pattern.read, hsigns, hbudget]
    dsimp only
    change (readAlternatives _ true (restOf 0 [] _) >>= _) = _
    have hplain : (restOf 1 [(1, ⟨0, noLimit⟩)] []).options.plain = false := rfl
    have hchoice (reading : Reading) : choice reading [descriptionParts name] = descriptionParts name := rfl
    rw [halternatives]
    dsimp only [bind, Except.bind]
    rw [hplain, hchoice, hsound.1, hsound.2]
    rfl
  rw [descriptionPattern, patternOf, hread]

/-! ## Declarations -/

def declares (name cs : List Char) : Bool :=
  match dropPrefix? ['f', 'u', 'n', 'c'] cs with
  | none => false
  | some cs =>
    !(cs.takeWhile isBlank).isEmpty &&
      match dropPrefix? name (cs.dropWhile isBlank) with
      | none => false
      | some cs => (cs.dropWhile isBlank).head? == some '('

def textBefore (name : List Char) : List Char → Option (List Char)
  | [] => none
  | c :: cs => if declares name (c :: cs) then some [] else (textBefore name cs).map (c :: ·)

def declarationWay (name : List Char) : Way :=
  .word ['f', 'u', 'n', 'c'] (.many isBlank 1 (.word name (.many isBlank 0 (.char '(' .stop))))

def descriptionWay (name : List Char) : Way :=
  .word ['/', '/'] (.many isBlank 0 (.mark (.sparing (.mark (declarationWay name)))))

theorem declarationWay_marks (name cs : List Char) (position : Nat) (marks : Marks) :
    (declarationWay name cs position marks).map Finish.marks =
      if declares name cs then some marks else none := by
  rw [declarationWay, Way.word_eq, declares]
  cases dropPrefix? ['f', 'u', 'n', 'c'] cs with
  | none => rfl
  | some cs =>
    rw [Option.bind_some, Way.many]
    by_cases hgap : cs.takeWhile isBlank = []
    · simp [hgap]
    · have hlong : 1 ≤ (cs.takeWhile isBlank).length := length_pos_iff.2 hgap
      simp only [if_pos hlong, Way.word_eq, isEmpty_eq_false_iff.2 hgap]
      cases dropPrefix? name (cs.dropWhile isBlank) with
      | none => rfl
      | some cs =>
        rw [Option.bind_some, Way.many]
        cases hrest : cs.dropWhile isBlank with
        | nil => simp [hrest, Way.char, Way.one]
        | cons c rest => by_cases hc : c = '(' <;> simp [hrest, Way.char_cons, hc, Way.stop]

theorem sparing_declarationWay (name cs : List Char) (position : Nat) (marks : Marks) :
    ((Way.sparing (declarationWay name).mark) cs position marks).map Finish.marks =
      (textBefore name cs).map fun text => marks ++ [some (position + text.length)] := by
  induction cs generalizing position with
  | nil => rfl
  | cons c cs ih =>
    rw [Way.sparing, Option.map_or, ih, Way.mark, declarationWay_marks, textBefore]
    split
    · rfl
    · simp [Function.comp_def, Nat.add_assoc, Nat.add_comm 1]

theorem not_declares_of_ne {c : Char} (h : c ≠ 'f') : declares name (c :: cs) = false := by
  rw [declares, dropPrefix?, if_neg (Ne.symm h)]

theorem textBefore_dropWhile (name cs : List Char) :
    textBefore name cs = (textBefore name (cs.dropWhile isBlank)).map
      (cs.takeWhile isBlank ++ ·) := by
  induction cs with
  | nil => rfl
  | cons c cs ih =>
    cases hc : isBlank c with
    | false =>
      have hne : ¬isBlank c = true := by rw [hc]; decide
      rw [dropWhile_cons_of_neg hne, takeWhile_cons_of_neg hne]
      simp
    | true =>
      rw [dropWhile_cons_of_pos hc, takeWhile_cons_of_pos hc, textBefore,
        not_declares_of_ne (ne_of_isBlank hc (by decide)), ih]
      simp [Function.comp_def]

theorem textBefore_behind {before : List Char} (h : textBefore name (before ++ cs) = none) :
    textBefore name (cs.dropWhile isBlank) = none := by
  induction before with
  | nil =>
    rw [textBefore_dropWhile] at h
    exact Option.map_eq_none_iff.1 h
  | cons c before ih =>
    rw [cons_append, textBefore] at h
    split at h
    · cases h
    · exact ih (Option.map_eq_none_iff.1 h)

theorem textBefore_prefix {text : List Char} (h : textBefore name cs = some text) :
    ∃ rest, cs = text ++ rest := by
  induction cs generalizing text with
  | nil => cases h
  | cons c cs ih =>
    rw [textBefore] at h
    split at h
    · cases h
      exact ⟨_, rfl⟩
    · obtain ⟨text, htext, rfl⟩ := Option.map_eq_some_iff.1 h
      obtain ⟨rest, hrest⟩ := ih htext
      exact ⟨rest, by rw [hrest]; rfl⟩

theorem follows_declaration (hne : name ≠ []) (h : ∀ c ∈ name, isWordChar c = true) :
    Follows 2 (fun p => run false (together (declarationParts name)) p .ok) (declarationWay name) := by
  have hend : Follows 2 (fun p => run false (together [.repeated (single blanks) 0 none .greedy,
      charOf '(']) p .ok) (.many isBlank 0 (.char '(' .stop)) := by
    refine follows_seq false (follows_many takes_blank rfl 0 (follows_seq false (follows_char '(' false
      (follows_nothing false (follows_stop 2)))) ?_)
    intro c rest position marks hc _
    rw [Way.char_cons, if_neg (ne_of_isBlank hc (by decide))]
  have hname : Follows 2 (fun p => run false (together (.repeated (single blanks) 1 none .greedy ::
      (name.map charOf ++ [.repeated (single blanks) 0 none .greedy, charOf '(']))) p .ok)
        (.many isBlank 1 (.word name (.many isBlank 0 (.char '(' .stop)))) := by
    refine follows_seq false (follows_many takes_blank rfl 1 (follows_word hend name) ?_)
    intro c rest position marks hc _
    obtain ⟨d, more, rfl⟩ := exists_cons_of_ne_nil hne
    rw [Way.word, Way.char_cons, if_neg]
    exact ne_of_isBlank hc (isBlank_of_isWordChar (h d mem_cons_self))
  exact follows_word hname ['f', 'u', 'n', 'c']

/-- **The way of the pattern is the only one,** up to the blanks behind the slashes. -/
theorem follows_description (hne : name ≠ []) (h : ∀ c ∈ name, isWordChar c = true) :
    Follows 0 (fun p => run false (together (descriptionParts name)) p .ok) (descriptionWay name) := by
  have hbehind : Follows 0 (fun p => run false (together (.repeated (single blanks) 0 none .greedy ::
      .group 1 (.seq (.repeated (single (.any true)) 0 none .sparing) .nothing) ::
        declarationParts name)) p .ok)
      (.many isBlank 0 (.mark (.sparing (.mark (declarationWay name))))) := by
    refine follows_seq false (follows_many takes_blank rfl 0 (follows_seq false
      (follows_group rfl (follows_declaration hne h) fun hlast => follows_seq false (follows_sparing
        (follows_nothing false hlast)))) ?_)
    -- what begins with a blank has a declaration only if there is one behind the blanks
    intro c rest position marks hc hmany
    rw [Way.many, if_pos (Nat.zero_le _), Way.mark] at hmany
    have hnone := congrArg (Option.map Finish.marks) hmany
    rw [sparing_declarationWay, Option.map_none, Option.map_eq_none_iff] at hnone
    have hhere := sparing_declarationWay name (c :: rest) position (marks ++ [some position])
    rw [textBefore, not_declares_of_ne (ne_of_isBlank hc (by decide)), textBefore_dropWhile, hnone] at hhere
    exact Option.map_eq_none_iff.1 hhere
  exact follows_word hbehind ['/', '/']

/-! ## The first slashes -/

theorem descriptionWay_marks (name cs : List Char) (position : Nat) :
    (descriptionWay name cs position []).map Finish.marks =
      (dropPrefix? ['/', '/'] cs).bind fun cs =>
        (textBefore name (cs.dropWhile isBlank)).map fun text =>
          [some (position + 2 + (cs.takeWhile isBlank).length),
            some (position + 2 + (cs.takeWhile isBlank).length + text.length)] := by
  rw [descriptionWay, Way.word_eq]
  cases dropPrefix? ['/', '/'] cs with
  | none => rfl
  | some cs =>
    rw [Option.bind_some, Way.many, if_pos (Nat.zero_le _), Way.mark, sparing_declarationWay]
    rfl

theorem firstMarks_of_none (h : textBefore name cs = none) (position : Nat) :
    (descriptionWay name).firstMarks position cs = none := by
  induction cs generalizing position with
  | nil => rfl
  | cons c cs ih =>
    have hhere : (descriptionWay name (c :: cs) position []).map Finish.marks = none := by
      rw [descriptionWay_marks]
      cases hdrop : dropPrefix? ['/', '/'] (c :: cs) with
      | none => rfl
      | some rest =>
        rw [eq_of_dropPrefix? hdrop] at h
        rw [Option.bind_some, textBefore_behind h]
        rfl
    have hrest : textBefore name cs = none := by
      rw [textBefore] at h
      split at h
      · cases h
      · exact Option.map_eq_none_iff.1 h
    rw [Way.firstMarks, hhere, ih hrest]
    rfl

/-- **Only the first slashes count,** since what can be reached from later ones can be reached from them. -/
theorem firstMarks_description (name cs : List Char) (position : Nat) :
    (descriptionWay name).firstMarks position cs =
      (indexOf? ['/', '/'] cs).bind fun i =>
        (textBefore name ((cs.drop (i + 2)).dropWhile isBlank)).map fun text =>
          [some (position + i + 2 + ((cs.drop (i + 2)).takeWhile isBlank).length),
            some (position + i + 2 + ((cs.drop (i + 2)).takeWhile isBlank).length + text.length)] := by
  induction cs generalizing position with
  | nil => rfl
  | cons c cs ih =>
    rw [Way.firstMarks, descriptionWay_marks, indexOf?]
    cases hdrop : dropPrefix? ['/', '/'] (c :: cs) with
    | some rest =>
      have hcs : c :: cs = '/' :: '/' :: rest := eq_of_dropPrefix? hdrop
      obtain ⟨rfl, rfl⟩ := cons.inj hcs
      cases htext : textBefore name (rest.dropWhile isBlank) with
      | some text => simp [htext]
      | none =>
        have hnone : textBefore name ('/' :: rest) = none := by
          rw [textBefore, textBefore_dropWhile, htext]
          rfl
        simp [htext, firstMarks_of_none hnone]
    | none =>
      rw [ih, Option.isSome_none, if_neg Bool.false_ne_true]
      cases indexOf? ['/', '/'] cs with
      | none => rfl
      | some i =>
        have hposition : position + 1 + i = position + (i + 1) := by omega
        rw [Option.map_some, Option.bind_some, hposition]
        rfl

/-! ## Descriptions -/

/-- **The description of a function in a code:** what stands between the first slashes and the first
declaration of the function behind them. -/
def remark (code name : List Char) : String :=
  match (indexOf? ['/', '/'] code).bind fun i => textBefore name (code.drop (i + 2)) with
  | none => ""
  | some text => joinDescription (String.ofList text)

theorem joinDescription_blanks {gap : List Char} (h : ∀ c ∈ gap, isBlank c = true)
    (text : List Char) :
    joinDescription (String.ofList (gap ++ text)) = joinDescription (String.ofList text) := by
  rw [joinDescription, joinDescription, trim, trim, String.toList_ofList,
    String.toList_ofList, dropAround_of_pos_append h]

theorem describe_eq (hne : name ≠ []) (h : ∀ c ∈ name, isWordChar c = true)
    (code : String) (parameters : List Parameter) :
    describe code ⟨String.ofList name, parameters, ""⟩ =
      ⟨String.ofList name, parameters, remark code.toList name⟩ := by
  have hsearch := searchFrom_marks (p := .ofText code.toList) (follows_description hne h) rfl
  rw [← descriptionPattern_eq hne h] at hsearch
  change (searchFrom _ false code.toList (.ofText code.toList)).map _ =
    (descriptionWay name).firstMarks 0 code.toList at hsearch
  rw [firstMarks_description] at hsearch
  rw [describe, find?, remark]
  cases hindex : indexOf? ['/', '/'] code.toList with
  | none =>
    rw [hindex] at hsearch
    rw [Option.map_eq_none_iff.1 hsearch]
    rfl
  | some i =>
    rw [hindex, Option.bind_some] at hsearch
    rw [Option.bind_some, textBefore_dropWhile]
    generalize hrest : code.toList.drop (i + 2) = rest at hsearch ⊢
    cases htext : textBefore name (rest.dropWhile isBlank) with
    | none =>
      rw [htext] at hsearch
      rw [Option.map_eq_none_iff.1 hsearch]
      rfl
    | some text =>
      rw [htext] at hsearch
      obtain ⟨m, hm, hmarks⟩ := Option.map_eq_some_iff.1 hsearch
      obtain ⟨more, hmore⟩ := textBefore_prefix htext
      have hgroup : m.1.group? 1 code.toList = some text := by
        have htake := @take_drop_stretch code.toList (rest.takeWhile isBlank) text more (i + 2)
          (by rw [hrest, ← hmore, takeWhile_append_dropWhile])
        simp [Found.group?, hmarks, htake]
      rw [hm]
      dsimp only [Option.map_some]
      rw [hgroup, Option.getD_some, joinDescription_blanks (all_eq_true.1 all_takeWhile)]

theorem documentedSignatures_eq (code : String) :
    documentedSignatures code = (signatures code).map fun s =>
      { s with description := remark code.toList s.name.toList } := by
  have hsignatures : signatures code = (headingsFrom 0 0 code.toList).map fun e => e.2.signature := by
    have hplaced := congrArg (map Prod.snd) (placed_signatures code.toList)
    rwa [map_map, map_map] at hplaced
  rw [documentedSignatures, hsignatures]
  simp only [map_map]
  refine map_congr_left fun e he => ?_
  obtain ⟨k, -, hheading⟩ := heading?_of_mem_headingsFrom he
  obtain ⟨-, -, -, -, ⟨hne, hword⟩, -⟩ := heading?_eq_some_iff.1 hheading
  rw [Function.comp_apply, Function.comp_apply, Heading.signature, describe_eq hne hword,
    String.toList_ofList]

/-! ## Comment lines above a declaration -/

def commentLines (ls : List (List Char × List Char)) : List Char :=
  ls.flatMap fun l => l.1 ++ '/' :: '/' :: l.2 ++ ['\n']

/-- **The first slashes of a code begin the comment lines directly above a declaration of the function.**
The first line has `first` behind its slashes, and something of it is visible. -/
structure LinesAbove (code name first : List Char) (more : List (List Char × List Char)) : Prop where
  code_eq : ∃ before indent behind, code = before ++ '/' :: '/' :: (first ++ '\n' ::
      (commentLines more ++ indent) ++ behind) ∧ ¬['/', '/'] <:+: before ++ ['/'] ∧
    textBefore name (first ++ '\n' :: (commentLines more ++ indent) ++ behind) =
      some (first ++ '\n' :: (commentLines more ++ indent)) ∧
    ∀ c ∈ indent, isBlank c = true
  visible : ∃ c ∈ first, isBlank c = false
  first_line : '\n' ∉ first
  more_lines : ∀ l ∈ more, '\n' ∉ l.1 ++ l.2 ∧ ∀ c ∈ l.1, isBlank c = true

def withoutSlashes (cs : List Char) : String := trim (String.ofList (cs.dropWhile (· == '/')))

theorem descriptionLine_eq (cs : List Char) :
    descriptionLine (String.ofList cs) = withoutSlashes (dropAround isBlank cs) := by
  simp only [descriptionLine, withoutSlashes, trim, String.toList_ofList]

theorem joinDescription_eq (cs : List Char) :
    joinDescription (String.ofList cs) =
      " ".intercalate ((fields isBlank '\n' cs).map withoutSlashes) := by
  rw [joinDescription, lines, map_splitChar '\n' cs descriptionLine_eq]

theorem dropAround_ne_nil {c : Char} (hc : isBlank c = false) (cs ds : List Char) :
    [dropAround isBlank (cs ++ c :: ds)].filter (· ≠ []) =
      [dropAround isBlank (cs ++ c :: ds)] := by
  rw [dropAround_append_cons hc]
  simp

theorem fields_commentLines {more : List (List Char × List Char)} {indent : List Char}
    (hmore : ∀ l ∈ more, '\n' ∉ l.1 ++ l.2 ∧ ∀ c ∈ l.1, isBlank c = true)
    (hindent : ∀ c ∈ indent, isBlank c = true) :
    (fields isBlank '\n' (commentLines more ++ indent)).map withoutSlashes =
      more.map fun l => descriptionLine (String.ofList ('/' :: '/' :: l.2)) := by
  induction more with
  | nil =>
    have hblank : fields isBlank '\n' indent = [] := by
      induction indent with
      | nil => rfl
      | cons c indent ih =>
        obtain ⟨hc, hindent⟩ := forall_mem_cons.1 hindent
        rw [fields_cons_of_pos hc, ih hindent]
    exact congrArg _ hblank
  | cons l more ih =>
    obtain ⟨⟨hline, hblank⟩, hmore⟩ := forall_mem_cons.1 hmore
    have hsplit : commentLines (l :: more) ++ indent =
        (l.1 ++ '/' :: '/' :: l.2) ++ '\n' :: (commentLines more ++ indent) := by
      simp [commentLines]
    have hfeed : '\n' ∉ l.1 ++ '/' :: '/' :: l.2 := by simpa using hline
    rw [hsplit, fields_append_cons hfeed, dropAround_ne_nil (by decide), map_append, ih hmore,
      dropAround_of_pos_append hblank, map_singleton, ← descriptionLine_eq]
    rfl

theorem indexOf?_slashes {before : List Char} (h : ¬['/', '/'] <:+: before ++ ['/']) (rest : List Char) :
    indexOf? ['/', '/'] (before ++ '/' :: '/' :: rest) = some before.length := by
  induction before with
  | nil => rfl
  | cons c before ih =>
    rw [cons_append, infix_cons_iff, not_or] at h
    have hhere : ¬(dropPrefix? ['/', '/'] (c :: (before ++ '/' :: '/' :: rest))).isSome = true := by
      rw [isSome_dropPrefix?_iff]
      intro hprefix
      refine h.1 (prefix_of_prefix_length_le hprefix ⟨'/' :: rest, ?_⟩ ?_) <;> simp
    rw [cons_append, indexOf?, if_neg hhere, ih h.2]
    rfl

/-- **What a description says.** The description of each function is the text between the first slashes of
the code and the first declaration of a function of that name behind them, line by line, and it is empty
if there is no such text. Hence, if the first slashes begin the comment lines directly above the
declaration, it is made of the texts of these lines. -/
theorem descriptions_of_text (code : String) :
    documentedSignatures code = ((signatures code).map fun s =>
      { s with description := remark code.toList s.name.toList }) ∧
    ∀ s ∈ documentedSignatures code, ∀ first more, LinesAbove code.toList s.name.toList first more →
      s.description = " ".intercalate (descriptionLine (String.ofList first) ::
        more.map fun l => descriptionLine (String.ofList ('/' :: '/' :: l.2))) := by
  refine ⟨documentedSignatures_eq code, fun s hs first more hlines => ?_⟩
  obtain ⟨before, indent, behind, hcode, hfirst, htext, hindent⟩ := hlines.code_eq
  rw [documentedSignatures_eq] at hs
  obtain ⟨t, -, rfl⟩ := List.mem_map.1 hs
  have hindex := indexOf?_slashes hfirst (first ++ '\n' :: (commentLines more ++ indent) ++ behind)
  rw [← hcode] at hindex
  have hdrop : code.toList.drop (before.length + 2) =
      first ++ '\n' :: (commentLines more ++ indent) ++ behind := by
    rw [hcode, ← List.drop_drop, List.drop_left]
    rfl
  obtain ⟨c, hc, hvisible⟩ := hlines.visible
  obtain ⟨left, right, rfl⟩ := List.append_of_mem hc
  rw [remark, hindex, Option.bind_some, hdrop, htext]
  dsimp only
  rw [joinDescription_eq, fields_append_cons hlines.first_line, dropAround_ne_nil hvisible,
    List.map_append, fields_commentLines hlines.more_lines hindent, descriptionLine_eq]
  rfl

/-- Two lines of comment above a function. -/
theorem descriptions_of_text_two_lines :
    LinesAbove "x // Adds,\n  // or not\nfunc f(a) \x7b\x7d".toList ['f'] " Adds,".toList
        [([' ', ' '], " or not".toList)] ∧
      ∀ s ∈ documentedSignatures "x // Adds,\n  // or not\nfunc f(a) \x7b\x7d",
        s.description = "Adds, or not" := by
  have hlines : LinesAbove "x // Adds,\n  // or not\nfunc f(a) \x7b\x7d".toList ['f'] " Adds,".toList
      [([' ', ' '], " or not".toList)] := by
    refine ⟨⟨['x', ' '], [], "func f(a) \x7b\x7d".toList, ?_, ?_, ?_, fun c hc => absurd hc List.not_mem_nil⟩,
      ⟨'A', ?_, ?_⟩, ?_, List.forall_mem_singleton.2 ⟨?_, List.forall_mem_cons.2 ⟨?_,
        List.forall_mem_singleton.2 ?_⟩⟩⟩ <;> decide +kernel
  have hname : ∀ s ∈ documentedSignatures "x // Adds,\n  // or not\nfunc f(a) \x7b\x7d",
      s.name.toList = ['f'] := by decide +kernel
  refine ⟨hlines, fun s hs => ?_⟩
  have hdescription := (descriptions_of_text _).2 s hs _ _ ((hname s hs).symm ▸ hlines)
  rw [hdescription]
  decide +kernel

/-- What stands below a comment can be part of the description of another function. -/
theorem description_of_other_function :
    documentedSignatures "// about a\nfunc a() \x7b\x7d\nfunc b() \x7b\x7d" =
      [⟨"a", [], "about a"⟩, ⟨"b", [], "about a func a() \x7b\x7d"⟩] := by
  decide +kernel

end Package

end ScriptWorkbench
