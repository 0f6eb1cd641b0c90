/-
What matching comes to, without places and without falling back.

The matcher passes on what remains to be matched as a function of a place. Here a way on is described by what
is left of the text, the position and the marks alone (`Way`), and `Follows` says that a function of the
matcher goes that way.

**A failed way leaves the marks that it was given in front of its own,** so that going back restores them;
that is why `Follows` counts the marks and speaks of failures. A repetition that takes as much as it can has
one way only, if what follows cannot begin with a character of the repeated kind (`follows_many`).
-/
import ScriptWorkbench.Pattern.Matching
import ScriptWorkbench.Text.Search

namespace ScriptWorkbench.Pattern

open List

variable {next : Next} {n : Nat} {p : Place} {test : Char → Bool}

/-! ## Ways -/

/-- Where a match ends. -/
structure Finish where
  rest : List Char
  position : Nat
  marks : Marks
deriving DecidableEq

abbrev Way := List Char → Nat → Marks → Option Finish

def Outcome.Comes (ms : Marks) (r : Outcome) : Option Finish → Prop
  | some f => ∃ q, r = .ok q ∧ q.rest = f.rest ∧ q.position = f.position ∧ q.marks = f.marks
  | none => ∃ left, r = .error left ∧ ms <+: left

def Follows (n : Nat) (next : Next) (w : Way) : Prop :=
  ∀ p : Place, p.marks.length = n → Outcome.Comes p.marks (next p) (w p.rest p.position p.marks)

theorem Outcome.comes_error {ms : Marks} : Outcome.Comes ms (.error ms) none :=
  ⟨ms, rfl, prefix_refl ms⟩

theorem Outcome.Comes.weaken {ms ms' : Marks} {r : Outcome} {f : Option Finish} (h : Comes ms' r f)
    (hms : ms <+: ms') : Comes ms r f := by
  cases f with
  | some f => exact h
  | none =>
    obtain ⟨left, hr, hleft⟩ := h
    exact ⟨left, hr, hms.trans hleft⟩

theorem retry_of_prefix {left : Marks} (h : p.marks <+: left) : p.retry false left = p := by
  rw [Place.retry, if_neg (by decide), ← prefix_iff_eq_take.1 h]

def Outcome.orFrom (p : Place) (next : Next) : Outcome → Outcome
  | .ok q => .ok q
  | .error left => next (p.retry false left)

theorem Outcome.Comes.orFrom {r : Outcome} {f g : Option Finish} (hr : Comes p.marks r f)
    (hnext : Comes p.marks (next p) g) :
    Comes p.marks (r.orFrom p next) (f.or g) := by
  cases f with
  | some f =>
    obtain ⟨q, rfl, hend⟩ := hr
    exact ⟨q, rfl, hend⟩
  | none =>
    obtain ⟨left, rfl, hleft⟩ := hr
    rw [Outcome.orFrom, retry_of_prefix hleft]
    exact hnext

def Way.stop : Way := fun rest position marks => some ⟨rest, position, marks⟩

theorem follows_stop (n : Nat) : Follows n .ok Way.stop := fun p _ => ⟨p, rfl, rfl, rfl, rfl⟩

/-! ## Characters -/

theorem run_atom (inside : Bool) (a : Atom) (p : Place) (next : Next) :
    run inside (.atom a) p next = next.from p (p.passAtom? a) := rfl

def Way.one (test : Char → Bool) (w : Way) : Way
  | [], _, _ => none
  | c :: rest, position, marks => if test c then w rest (position + 1) marks else none

def Atom.Takes (a : Atom) (test : Char → Bool) : Prop :=
  ∀ p : Place, p.passAtom? a = p.stepIf? fun n => test (Char.ofNat n)

theorem follows_one {a : Atom} (ha : a.Takes test) (inside : Bool) {w : Way} (h : Follows n next w) :
    Follows n (fun p => run inside (.atom a) p next) (.one test w) := by
  intro p hp
  dsimp only
  rw [run_atom, ha p, Place.stepIf?]
  cases hrest : p.rest with
  | nil => exact Outcome.comes_error
  | cons c rest =>
    dsimp only
    rw [Char.ofNat_toNat, Way.one]
    cases htest : test c with
    | false => exact Outcome.comes_error
    | true => exact h (p.step c rest) hp

theorem takes_one (c : Char) : Atom.Takes (.one true c.toNat ⟨false, false⟩) (· == c) := by
  intro p
  rw [Place.passAtom?, Place.stepIf?, Place.stepIf?]
  cases p.rest with
  | nil => rfl
  | cons d rest =>
    have hcode : (isCode ⟨false, false⟩ c.toNat d.toNat == true) = (Char.ofNat d.toNat == c) := by
      rw [Char.ofNat_toNat, isCode, Bool.false_and, if_neg (by decide), beq_true]
      rw [Bool.eq_iff_iff, beq_iff_eq, beq_iff_eq]
      exact Char.toNat_inj
    dsimp only
    rw [hcode]

def charOf (c : Char) : Pattern := .atom (.one true c.toNat ⟨false, false⟩)

def Way.char (c : Char) (w : Way) : Way := .one (· == c) w

theorem Way.char_cons (c d : Char) (w : Way) (rest : List Char) (position : Nat) (marks : Marks) :
    Way.char c w (d :: rest) position marks = if d = c then w rest (position + 1) marks else none := by
  rw [char, one]
  simp only [beq_iff_eq]

def Way.word : List Char → Way → Way
  | [], w => w
  | c :: cs, w => .char c (word cs w)

theorem Way.word_eq (cs : List Char) (w : Way) (rest : List Char) (position : Nat) (marks : Marks) :
    Way.word cs w rest position marks =
      (Text.dropPrefix? cs rest).bind fun rest => w rest (position + cs.length) marks := by
  induction cs generalizing rest position with
  | nil => rfl
  | cons c cs ih =>
    cases rest with
    | nil => rfl
    | cons d rest =>
      rw [word, char_cons, Text.dropPrefix?, ih]
      by_cases hd : d = c
      · rw [if_pos hd, if_pos hd.symm, length_cons, Nat.add_assoc, Nat.add_comm 1]
      · rw [if_neg hd, if_neg (Ne.symm hd)]
        rfl

theorem follows_char (c : Char) (inside : Bool) {w : Way} (h : Follows n next w) :
    Follows n (fun p => run inside (charOf c) p next) (.char c w) :=
  follows_one (takes_one c) inside h

theorem takes_blank : Atom.Takes (.set ⟨false, [.blank true]⟩ ⟨false, false⟩ false) Text.isBlank := by
  intro p
  simp [Place.passAtom?, CharSet.holds, Member.holds, isBlankCode]

theorem takes_word : Atom.Takes (.set ⟨false, [.word true]⟩ ⟨false, false⟩ false) Text.isWordChar := by
  intro p
  simp [Place.passAtom?, CharSet.holds, Member.holds, isWordCode]

theorem takes_any : Atom.Takes (.any true) fun _ => true := by
  intro p
  simp [Place.passAtom?]

/-! ## Repetitions -/

def Way.many (test : Char → Bool) (least : Nat) (w : Way) : Way := fun rest position marks =>
  if least ≤ (rest.takeWhile test).length then
    w (rest.dropWhile test) (position + (rest.takeWhile test).length) marks
  else none

theorem Way.many_cons_of_pos {c : Char} (hc : test c = true) (least : Nat) (w : Way)
    (rest : List Char) (position : Nat) (marks : Marks) :
    many test least w (c :: rest) position marks = many test (least - 1) w rest (position + 1) marks := by
  rw [many, many, takeWhile_cons_of_pos hc, dropWhile_cons_of_pos hc, length_cons,
    Nat.add_assoc, Nat.add_comm 1]
  by_cases hleast : least ≤ (rest.takeWhile test).length + 1
  · rw [if_pos hleast, if_pos (by omega)]
  · rw [if_neg hleast, if_neg (by omega)]

theorem Way.many_of_stop {rest : List Char} (h : ∀ c ∈ rest.head?, test c = false) (least : Nat)
    (w : Way) (position : Nat) (marks : Marks) :
    many test least w rest position marks = if least = 0 then w rest position marks else none := by
  have htake : rest.takeWhile test = [] ∧ rest.dropWhile test = rest := by
    cases rest with
    | nil => exact ⟨rfl, rfl⟩
    | cons c rest =>
      have hc : ¬test c = true := by rw [h c rfl]; decide
      exact ⟨takeWhile_cons_of_neg hc, dropWhile_cons_of_neg hc⟩
  rw [many, htake.1, htake.2, length_nil, Nat.add_zero]
  simp only [Nat.le_zero]

def single (a : Atom) : Pattern := .seq (.atom a) .nothing

theorem run_single (inside : Bool) (a : Atom) (p : Place) (next : Next) :
    run inside (single a) p next = next.from p (p.passAtom? a) := rfl

theorem run_greedy (inside : Bool) {body : Pattern} (hbody : body.isUnit = true) (least : Nat)
    (most : Option Nat) (p : Place) (next : Next) :
    run inside (.repeated body least most .greedy) p next =
      iterate (run inside body) inside (least + p.rest.length + 2) least most none p next :=
  if_pos hbody

section Rounds

variable {a : Atom} {test : Char → Bool} (ha : a.Takes test) (inside : Bool) {p : Place} (next : Next)
include ha

theorem run_single_of_pos {c : Char} {rest : List Char} (hrest : p.rest = c :: rest)
    (hc : test c = true) : run inside (single a) p next = next (p.step c rest) := by
  rw [run_single, ha p, Place.stepIf?, hrest]
  dsimp only
  rw [Char.ofNat_toNat, if_pos hc]
  rfl

theorem run_single_of_stop (h : ∀ c ∈ p.rest.head?, test c = false) :
    run inside (single a) p next = .error p.marks := by
  rw [run_single, ha p, Place.stepIf?]
  cases hrest : p.rest with
  | nil => rfl
  | cons c rest =>
    have hc : ¬test c = true := by
      rw [h c (by rw [hrest]; rfl)]
      decide
    dsimp only
    rw [Char.ofNat_toNat, if_neg hc]
    rfl

end Rounds

theorem stop_cases (test : Char → Bool) (rest : List Char) :
    (∃ c cs, rest = c :: cs ∧ test c = true) ∨ ∀ c ∈ rest.head?, test c = false := by
  cases rest with
  | nil => exact .inr (by rintro c ⟨⟩)
  | cons c cs =>
    cases hc : test c with
    | true => exact .inl ⟨c, cs, rfl, hc⟩
    | false => exact .inr (by rintro d ⟨⟩; exact hc)

theorem iterate_required (body : Place → Next → Outcome) (budget : Nat) {least : Nat}
    (hleast : 0 < least) (last : Option Nat) (p : Place) (next : Next) :
    iterate body false (budget + 1) least none last p next =
      body p fun q => iterate body false budget (least - 1) none last q next := by
  rw [iterate, if_pos hleast]
  rfl

theorem iterate_optional (body : Place → Next → Outcome) (budget : Nat) {last : Option Nat}
    (hlast : last ≠ some p.position) (next : Next) :
    iterate body false (budget + 1) 0 none last p next =
      (body p fun q => iterate body false budget 0 none (some p.position) q next).orFrom p next := by
  rw [iterate, if_neg (Nat.lt_irrefl 0), if_neg (by simpa using hlast)]
  dsimp only [Option.map_none]
  cases body p fun q => iterate body false budget 0 none (some p.position) q next <;> rfl

/-- **Taking as much as possible,** where what follows cannot begin with a character of the class, unless
it can begin behind all of them too. -/
theorem iterate_comes {a : Atom} {test : Char → Bool} (ha : a.Takes test) {n : Nat} {next : Next}
    {w : Way} (h : Follows n next w)
    (hw : ∀ c rest position marks, test c = true →
      Way.many test 0 w rest (position + 1) marks = none → w (c :: rest) position marks = none)
    {budget least : Nat} {last : Option Nat} {p : Place} (hp : p.marks.length = n)
    (hbudget : least + p.rest.length < budget) (hlast : ∀ k ∈ last, k < p.position) :
    Outcome.Comes p.marks (iterate (run false (single a)) false budget least none last p next)
      (Way.many test least w p.rest p.position p.marks) := by
  induction budget generalizing least last p with
  | zero => omega
  | succ budget ih =>
    have hnever : last ≠ some p.position := fun hsame => Nat.lt_irrefl _ (hlast _ hsame)
    obtain ⟨c, rest, hrest, hc⟩ | hstop := stop_cases test p.rest
    · rw [hrest, length_cons] at hbudget
      rw [hrest, Way.many_cons_of_pos hc]
      by_cases hleast : 0 < least
      · rw [iterate_required _ _ hleast, run_single_of_pos ha false _ hrest hc]
        refine @ih (least - 1) last (p.step c rest) hp ?_ fun k hk => Nat.lt_succ_of_lt (hlast k hk)
        show least - 1 + rest.length < budget
        omega
      · obtain rfl : least = 0 := by omega
        rw [iterate_optional _ _ hnever, run_single_of_pos ha false _ hrest hc]
        have hmore := @ih 0 (some p.position) (p.step c rest) hp
          (by show 0 + rest.length < budget; omega) (by rintro k ⟨⟩; exact Nat.lt_succ_self _)
        -- with fewer rounds what follows would begin here
        have hfewer := h p hp
        rw [hrest] at hfewer
        have hor : (Way.many test 0 w rest (p.position + 1) p.marks).or (w (c :: rest) p.position p.marks) =
            Way.many test 0 w rest (p.position + 1) p.marks := by
          cases hmany : Way.many test 0 w rest (p.position + 1) p.marks with
          | some f => rfl
          | none => rw [hw c rest _ _ hc hmany]; rfl
        have hboth := Outcome.Comes.orFrom (p := p) hmore hfewer
        exact hor ▸ hboth
    · rw [Way.many_of_stop hstop]
      by_cases hleast : 0 < least
      · rw [iterate_required _ _ hleast, run_single_of_stop ha false _ hstop, if_neg (by omega)]
        exact Outcome.comes_error
      · obtain rfl : least = 0 := by omega
        rw [iterate_optional _ _ hnever, run_single_of_stop ha false _ hstop]
        exact Outcome.comes_error.orFrom (h p hp)

theorem follows_many {a : Atom} (ha : a.Takes test) (hunit : a.takesOne = true) (least : Nat)
    {w : Way} (h : Follows n next w)
    (hw : ∀ c rest position marks, test c = true →
      Way.many test 0 w rest (position + 1) marks = none → w (c :: rest) position marks = none) :
    Follows n (fun p => run false (.repeated (single a) least none .greedy) p next)
      (.many test least w) := by
  intro p hp
  have hbody : (single a).isUnit = true := hunit
  dsimp only
  rw [run_greedy false hbody]
  exact iterate_comes ha h hw hp (by omega) (by rintro k ⟨⟩)

def Way.sparing (w : Way) : Way
  | [], position, marks => w [] position marks
  | c :: rest, position, marks => (w (c :: rest) position marks).or (sparing w rest (position + 1) marks)

theorem iterateSparing_optional (body : Place → Next → Outcome) (budget : Nat) (last : Option Nat)
    (p : Place) (next : Next) :
    iterateSparing body false (budget + 1) 0 none last p next =
      (next p).orFrom p fun p => if last = some p.position then .error p.marks
        else body p fun q => iterateSparing body false budget 0 none (some p.position) q next := by
  rw [iterateSparing]
  cases next p with
  | ok q => rfl
  | error left => simp [Outcome.orFrom]

theorem iterateSparing_comes {n : Nat} {next : Next} {w : Way} (h : Follows n next w) {budget : Nat}
    {last : Option Nat} {p : Place} (hp : p.marks.length = n) (hbudget : p.rest.length < budget)
    (hlast : ∀ k ∈ last, k < p.position) :
    Outcome.Comes p.marks
      (iterateSparing (run true (single (.any true))) false budget 0 none last p next)
      (Way.sparing w p.rest p.position p.marks) := by
  induction budget generalizing last p with
  | zero => omega
  | succ budget ih =>
    have hnever : last ≠ some p.position := fun hsame => Nat.lt_irrefl _ (hlast _ hsame)
    rw [iterateSparing_optional]
    have hfirst := h p hp
    cases hrest : p.rest with
    | nil =>
      rw [hrest] at hfirst
      rw [Way.sparing, ← Option.or_none (o := w [] p.position p.marks)]
      refine hfirst.orFrom ?_
      rw [if_neg hnever, run_single_of_stop takes_any true _ (by rw [hrest]; rintro c ⟨⟩)]
      exact Outcome.comes_error
    | cons c rest =>
      rw [hrest, length_cons] at hbudget
      rw [hrest] at hfirst
      refine hfirst.orFrom ?_
      rw [if_neg hnever, run_single_of_pos takes_any true _ hrest rfl]
      exact @ih (some p.position) (p.step c rest) hp (by show rest.length < budget; omega)
        (by rintro k ⟨⟩; exact Nat.lt_succ_self _)

theorem follows_sparing {w : Way} (h : Follows n next w) :
    Follows n (fun p => run false (.repeated (single (.any true)) 0 none .sparing) p next)
      (.sparing w) := by
  intro p hp
  exact iterateSparing_comes h hp (by omega) (by rintro k ⟨⟩)

/-! ## Sequences, choices and groups -/

theorem follows_nothing (inside : Bool) {w : Way} (h : Follows n next w) :
    Follows n (fun p => run inside .nothing p next) w := h

theorem follows_seq (inside : Bool) {a b : Pattern} {w : Way}
    (h : Follows n (fun p => run inside a p fun q => run inside b q next) w) :
    Follows n (fun p => run inside (.seq a b) p next) w := h

theorem run_either (a b : Pattern) (p : Place) (next : Next) :
    run false (.either a b) p next =
      (run false a p next).orFrom p fun p' =>
        (run false b p' next).orFrom p fun p'' => .error p''.marks := by
  rw [run]
  cases run false a p next with
  | ok q => rfl
  | error left =>
    rw [Outcome.orFrom]
    dsimp only
    cases run false b (p.retry false left) next <;> rfl

theorem follows_either {a b : Pattern} {v w : Way} (ha : Follows n (fun p => run false a p next) v)
    (hb : Follows n (fun p => run false b p next) w) :
    Follows n (fun p => run false (.either a b) p next) fun rest position marks =>
      (v rest position marks).or (w rest position marks) := by
  intro p hp
  -- after two failures the marks are those from before
  have hsecond : Outcome.Comes p.marks (Outcome.orFrom p (fun p' => .error p'.marks) _) _ :=
    (hb p hp).orFrom Outcome.comes_error
  rw [Option.or_none] at hsecond
  dsimp only
  rw [run_either]
  exact (ha p hp).orFrom hsecond

def Way.mark (w : Way) : Way := fun rest position marks => w rest position (marks ++ [some position])

theorem follows_mark {w : Way} (h : Follows (n + 1) next w) :
    Follows n (fun p => next (p.mark n)) w.mark := by
  intro p hp
  have hmark : p.mark n = { p with marks := p.marks ++ [some p.position] } := by
    rw [Place.mark, if_neg (by omega), hp, Nat.sub_self, replicate_zero, append_nil]
  have hcomes := h (p.mark n) (by rw [hmark]; simp [hp])
  dsimp only
  rw [hmark] at hcomes ⊢
  exact hcomes.weaken (prefix_append _ _)

theorem run_group (inside : Bool) (index : Nat) (body : Pattern) (p : Place) (next : Next) :
    run inside (.group index body) p next =
      run inside body (p.mark (2 * index - 2)) fun q => next (q.mark (2 * index - 1)) := rfl

theorem follows_group {index : Nat} (hindex : 2 * index = n + 2) {body : Pattern} {v w : Way}
    (hw : Follows (n + 2) next w) (h : Follows (n + 1) (fun q => next (q.mark (n + 1))) w.mark →
      Follows (n + 1) (fun p => run false body p fun q => next (q.mark (n + 1))) v) :
    Follows n (fun p => run false (.group index body) p next) v.mark := by
  have hfirst : 2 * index - 2 = n := by omega
  have hlast : 2 * index - 1 = n + 1 := by omega
  have hmarked := follows_mark (h (follows_mark hw))
  intro p hp
  dsimp only
  rw [run_group, hfirst, hlast]
  exact hmarked p hp

/-! ## Searching -/

theorem matchAt_of_follows {pattern : Pattern} {w : Way}
    (h : Follows 0 (fun p => run false pattern p .ok) w) (hp : p.marks = []) :
    match w p.rest p.position [] with
    | none => matchAt pattern false p = none
    | some f => ∃ q, matchAt pattern false p = some (⟨p.position, f.position, f.marks⟩, q) ∧
        q.rest = f.rest ∧ q.position = f.position ∧ q.marks = [] := by
  have hrun := h p (by rw [hp]; rfl)
  rw [hp] at hrun
  simp only [matchAt, Bool.false_and, Bool.false_eq_true, if_false]
  cases hw : w p.rest p.position [] with
  | none =>
    rw [hw] at hrun
    obtain ⟨left, hleft, -⟩ := hrun
    dsimp only at hleft ⊢
    rw [hleft]
  | some f =>
    rw [hw] at hrun
    obtain ⟨q, hq, hrest, hposition, hmarks⟩ := hrun
    dsimp only at hq ⊢
    refine ⟨{ q with marks := [] }, ?_, hrest, hposition, rfl⟩
    rw [hq]
    dsimp only
    rw [hposition, hmarks]

def Way.firstMarks (w : Way) (position : Nat) : List Char → Option Marks
  | [] => (w [] position []).map Finish.marks
  | c :: rest => ((w (c :: rest) position []).map Finish.marks).or (firstMarks w (position + 1) rest)

theorem searchFrom_marks {pattern : Pattern} {w : Way}
    (h : Follows 0 (fun p => run false pattern p .ok) w) (hp : p.marks = []) :
    (searchFrom pattern false p.rest p).map (·.1.marks) = w.firstMarks p.position p.rest := by
  have hhere {p : Place} (hp : p.marks = []) : (matchAt pattern false p).map (·.1.marks) =
      (w p.rest p.position []).map Finish.marks := by
    have hmatch := matchAt_of_follows h hp
    cases hw : w p.rest p.position [] with
    | none => rw [hw] at hmatch; rw [hmatch]; rfl
    | some f =>
      rw [hw] at hmatch
      obtain ⟨q, hq, -⟩ := hmatch
      rw [hq]
      rfl
  induction hrest : p.rest generalizing p with
  | nil =>
    rw [searchFrom, hhere hp, hrest]
    rfl
  | cons c rest ih =>
    have hmore := @ih (p.step c rest) hp rfl
    rw [searchFrom, Way.firstMarks, ← hrest, ← hhere hp]
    cases matchAt pattern false p with
    | none => exact hmore
    | some x => rfl

end ScriptWorkbench.Pattern
