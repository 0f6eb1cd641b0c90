/-
The expressions of the target language.

A relation between trees and lists of lexemes, for the operators that the emitter writes. The rank of an
expression says how tightly its outermost construct holds together:

  1 or    2 and    3 not    4 comparisons    5 + -    6 * /    7 sign    8 call, attribute, index

and 9 for names, literals, lists and anything in parentheses. Operators group to the left; comparisons chain
instead.

Main statement: `Spells.unique`, the grammar is unambiguous. Two facts carry it. Brackets match in every
stretch that is spelled, so no bracket is shared between two constructs; and an operator between operands that
stands outside all brackets is at least as tight as the rank of the whole.
-/
import ScriptWorkbench.Ast.Basic
import ScriptWorkbench.Proofs.TargetLexemes

namespace ScriptWorkbench.Target

open Ast List

variable {c l m o : Lexeme} {ls ms p q us : List Lexeme} {op : BinaryOp} {j k r : Nat} {x : String}

/-! ## The grammar -/

/-- Expressions of the target language. -/
inductive Tree where
  | word (text : String)
  | number (text : String)
  | quoted (text : String)
  | field (target : Tree) (name : String)
  | call (callee : Tree) (arguments : List Tree)
  | index (target position : Tree)
  | list (elements : List Tree)
  | unary (op : UnaryOp) (operand : Tree)
  | binary (left : Tree) (op : BinaryOp) (right : Tree)
  | chain (left : Tree) (op : BinaryOp) (right : Tree)

def constants : List String := ["False", "None", "True"]

def reserved : List String :=
  ["and", "as", "assert", "async", "await", "break", "class", "continue", "def", "del", "elif",
   "else", "except", "finally", "for", "from", "global", "if", "import", "in", "is", "lambda",
   "nonlocal", "not", "or", "pass", "raise", "return", "try", "while", "with", "yield"]

def isAtomWord (text : String) : Bool := Text.isIdentifier text.toList && !reserved.contains text

def isFieldWord (text : String) : Bool := isAtomWord text && !constants.contains text

def joins : List (Lexeme × Nat × BinaryOp) :=
  [(.word "or", 1, .or), (.word "and", 2, .and), (.symbol "==", 4, .equal),
   (.symbol "!=", 4, .notEqual), (.symbol "<", 4, .less), (.symbol "<=", 4, .lessEqual),
   (.symbol ">", 4, .greater), (.symbol ">=", 4, .greaterEqual), (.symbol "+", 5, .add),
   (.symbol "-", 5, .subtract), (.symbol "*", 6, .multiply), (.symbol "/", 6, .divide)]

def leads : List (Lexeme × Nat × UnaryOp) := [(.word "not", 3, .not), (.symbol "-", 7, .negate)]

def leftRank (rank : Nat) : Nat := if rank = 4 then 5 else rank

/-- What a list of lexemes can be read as. -/
inductive Form where
  | tree (rank : Nat) (t : Tree)
  | items (ts : List Tree)

/-- **The grammar.** The lexemes spell the form. -/
inductive Spells : Form → List Lexeme → Prop where
  | word {x : String} : isAtomWord x = true → Spells (.tree 9 (.word x)) [.word x]
  | number {x : String} : Spells (.tree 9 (.number x)) [.number x]
  | quoted {x : String} : Spells (.tree 9 (.quoted x)) [.quoted x]
  | group {k : Nat} {t : Tree} {ls : List Lexeme} :
      Spells (.tree k t) ls → Spells (.tree 9 t) (.symbol "(" :: (ls ++ [.symbol ")"]))
  | list {ts : List Tree} {ls : List Lexeme} :
      Spells (.items ts) ls → Spells (.tree 9 (.list ts)) (.symbol "[" :: (ls ++ [.symbol "]"]))
  | field {k : Nat} {t : Tree} {x : String} {ls : List Lexeme} :
      8 ≤ k → Spells (.tree k t) ls → isFieldWord x = true →
      Spells (.tree 8 (.field t x)) (ls ++ [.symbol ".", .word x])
  | call {k : Nat} {t : Tree} {ts : List Tree} {ls ms : List Lexeme} :
      8 ≤ k → Spells (.tree k t) ls → Spells (.items ts) ms →
      Spells (.tree 8 (.call t ts)) (ls ++ .symbol "(" :: (ms ++ [.symbol ")"]))
  | index {k j : Nat} {t i : Tree} {ls ms : List Lexeme} :
      8 ≤ k → Spells (.tree k t) ls → Spells (.tree j i) ms →
      Spells (.tree 8 (.index t i)) (ls ++ .symbol "[" :: (ms ++ [.symbol "]"]))
  | lead {k j : Nat} {m : Lexeme} {op : UnaryOp} {t : Tree} {ls : List Lexeme} :
      (m, j, op) ∈ leads → j ≤ k → Spells (.tree k t) ls → Spells (.tree j (.unary op t)) (m :: ls)
  | join {j k k' : Nat} {m : Lexeme} {op : BinaryOp} {a b : Tree} {ls ms : List Lexeme} :
      (m, j, op) ∈ joins → leftRank j ≤ k → Spells (.tree k a) ls → j < k' →
      Spells (.tree k' b) ms → Spells (.tree j (.binary a op b)) (ls ++ m :: ms)
  | chain {k : Nat} {m : Lexeme} {op : BinaryOp} {a b : Tree} {ls ms : List Lexeme} :
      (m, 4, op) ∈ joins → Spells (.tree 4 a) ls → 4 < k → Spells (.tree k b) ms →
      Spells (.tree 4 (.chain a op b)) (ls ++ m :: ms)
  | nothing : Spells (.items []) []
  | one {k : Nat} {t : Tree} {ls : List Lexeme} : Spells (.tree k t) ls → Spells (.items [t]) ls
  | more {k : Nat} {t u : Tree} {ts : List Tree} {ls ms : List Lexeme} :
      Spells (.tree k t) ls → Spells (.items (u :: ts)) ms →
      Spells (.items (t :: u :: ts)) (ls ++ .symbol "," :: ms)

def Reads (text : String) (t : Tree) : Prop := ∃ k ls, lex text.toList = some ls ∧ Spells (.tree k t) ls

/-! ## Brackets -/

def turn (l : Lexeme) : Int :=
  if l = .symbol "(" ∨ l = .symbol "[" then 1
  else if l = .symbol ")" ∨ l = .symbol "]" then -1
  else 0

def depth : List Lexeme → Int
  | [] => 0
  | l :: ls => turn l + depth ls

@[simp] theorem depth_nil : depth [] = 0 := rfl

@[simp] theorem depth_cons (l : Lexeme) (ls : List Lexeme) : depth (l :: ls) = turn l + depth ls := rfl

@[simp] theorem depth_append (ls ms : List Lexeme) : depth (ls ++ ms) = depth ls + depth ms := by
  induction ls with
  | nil => rw [nil_append, depth_nil, Int.zero_add]
  | cons l ls ih => rw [cons_append, depth_cons, depth_cons, ih, Int.add_assoc]

/-- All brackets match. -/
structure Balanced (ls : List Lexeme) : Prop where
  closed : depth ls = 0
  nonneg : ∀ p, p <+: ls → 0 ≤ depth p

theorem balanced_nil : Balanced [] where
  closed := rfl
  nonneg p hp := by rw [prefix_nil.1 hp]; exact Int.le_refl 0

theorem balanced_singleton (h : turn l = 0) : Balanced [l] where
  closed := by rw [depth_cons, h]; rfl
  nonneg p hp := by
    obtain rfl | ⟨q, rfl, hq⟩ := prefix_cons_iff.1 hp
    · exact Int.le_refl 0
    · rw [prefix_nil.1 hq, depth_cons, h]
      exact Int.le_refl 0

theorem Balanced.append (hl : Balanced ls) (hm : Balanced ms) :
    Balanced (ls ++ ms) where
  closed := by rw [depth_append, hl.closed, hm.closed]; rfl
  nonneg p hp := by
    obtain ⟨q, hq⟩ := hp
    obtain ⟨r, rfl, -⟩ | ⟨r, rfl, rfl⟩ := append_eq_append_iff.1 hq
    · exact hl.nonneg p (prefix_append p r)
    · have := hm.nonneg r (prefix_append r q)
      rw [depth_append, hl.closed]
      omega

theorem depth_pos_of_enclosed (hus : Balanced us) (ho : turn o = 1)
    (h : o :: (us ++ [c]) = p ++ m :: q) (hp : p ≠ []) : 0 < depth p := by
  cases p with
  | nil => exact absurd rfl hp
  | cons o' p =>
    obtain rfl := (cons.inj h).1
    have htail : us ++ [c] = p ++ m :: q := (cons.inj h).2
    have hpre : p <+: us := by
      obtain heq | hpre := prefix_concat_iff.1 ⟨m :: q, htail.symm⟩
      · rw [heq, append_assoc] at htail
        exact absurd (append_cancel_left htail) (by simp)
      · exact hpre
    have := hus.nonneg p hpre
    rw [depth_cons, ho]
    omega

theorem Balanced.enclose (hus : Balanced us) (ho : turn o = 1) (hc : turn c = -1) :
    Balanced (o :: (us ++ [c])) := by
  have hclosed : depth (o :: (us ++ [c])) = 0 := by
    rw [depth_cons, depth_append, depth_cons, hus.closed, ho, hc]
    rfl
  refine ⟨hclosed, fun p hp => ?_⟩
  obtain ⟨q, hq⟩ := hp
  cases q with
  | nil => rw [← hq, append_nil] at hclosed; omega
  | cons m q =>
    by_cases hnil : p = []
    · exact Int.le_of_eq (hnil ▸ depth_nil.symm)
    · exact Int.le_of_lt (depth_pos_of_enclosed hus ho hq.symm hnil)

theorem append_ne_enclosed (hus : Balanced us) (ho : turn o = 1) (hp : depth p = 0) (hne : p ≠ []) :
    p ++ m :: q ≠ o :: (us ++ [c]) := by
  intro h
  have := depth_pos_of_enclosed hus ho h.symm hne
  omega

theorem enclosed_inj {o' c' : Lexeme} {x x' us' : List Lexeme} (hus : Balanced us)
    (hus' : Balanced us') (ho : turn o = 1) (ho' : turn o' = 1)
    (h : x ++ o :: (us ++ [c]) = x' ++ o' :: (us' ++ [c'])) : x = x' ∧ us = us' := by
  have hno : ∀ {o : Lexeme} {us us' a : List Lexeme}, Balanced us → Balanced us' →
      turn o = 1 → us ≠ a ++ o :: us' := by
    rintro o us us' a hus hus' ho rfl
    have hclosed := hus.closed
    have := hus.nonneg a (prefix_append _ _)
    rw [depth_append, depth_cons, hus'.closed, ho] at hclosed
    omega
  rw [← cons_append, ← append_assoc, ← cons_append, ← append_assoc] at h
  have h := (append_inj' h rfl).1
  obtain ⟨a, rfl, ha⟩ | ⟨a, rfl, ha⟩ := append_eq_append_iff.1 h
  · cases a with
    | nil => exact ⟨(append_nil x).symm, (cons.inj ha).2⟩
    | cons l a => exact absurd (cons.inj ha).2 (hno hus hus' ho')
  · cases a with
    | nil => exact ⟨append_nil x', (cons.inj ha).2.symm⟩
    | cons l a => exact absurd (cons.inj ha).2 (hno hus' hus ho)

/-! ## Operators -/

def closesOperand : Lexeme → Bool
  | .word x => !(["or", "and", "not"].contains x)
  | .number _ => true
  | .quoted _ => true
  | .symbol x => x == ")" || x == "]"

theorem joins_facts : ∀ x ∈ joins,
    turn x.1 = 0 ∧ closesOperand x.1 = false ∧ x.1 ≠ .symbol "," ∧ 1 ≤ x.2.1 ∧ x.2.1 ≤ 6 := by
  decide

theorem leads_facts : ∀ x ∈ leads,
    turn x.1 = 0 ∧ closesOperand x.1 = false ∧ 1 ≤ x.2.1 ∧ x.2.1 ≤ 7 := by
  decide

theorem joins_rank (h : (m, j, op) ∈ joins) : 1 ≤ j ∧ j ≤ 6 := (joins_facts _ h).2.2.2

theorem leads_rank {op : UnaryOp} (h : (m, j, op) ∈ leads) : 1 ≤ j ∧ j ≤ 7 := (leads_facts _ h).2.2

theorem joins_unique : ∀ x ∈ joins, ∀ y ∈ joins, x.1 = y.1 → x = y := by decide

theorem leads_unique : ∀ x ∈ leads, ∀ y ∈ leads, x.1 = y.1 → x = y := by decide

def Separates (r : Nat) (m : Lexeme) : Prop := (m = .symbol "," ∧ r = 0) ∨ ∃ op, (m, r, op) ∈ joins

theorem Separates.facts (h : Separates r m) :
    turn m = 0 ∧ closesOperand m = false ∧ m ≠ .symbol "." ∧ r ≤ 6 := by
  have hdot : ∀ x ∈ joins, x.1 ≠ .symbol "." := by decide
  rcases h with ⟨rfl, rfl⟩ | ⟨op, hop⟩
  · decide
  · obtain ⟨hturn, hcloses, -, -, hr⟩ := joins_facts _ hop
    exact ⟨hturn, hcloses, hdot _ hop, hr⟩

theorem not_reserved_of_isAtomWord (h : isAtomWord x = true) : x ∉ reserved := by
  rw [isAtomWord, Bool.and_eq_true] at h
  simpa using h.2

theorem isAtomWord_of_isFieldWord (h : isFieldWord x = true) :
    isAtomWord x = true := by
  rw [isFieldWord, Bool.and_eq_true] at h
  exact h.1

theorem closesOperand_of_isAtomWord (h : isAtomWord x = true) :
    closesOperand (.word x) = true := by
  have hreserved := not_reserved_of_isAtomWord h
  have hsub : ∀ y ∈ ["or", "and", "not"], y ∈ reserved := by decide
  rw [closesOperand, Bool.not_eq_true', contains_eq_mem, decide_eq_false_iff_not]
  exact fun hx => hreserved (hsub x hx)

/-! ## Places between operands -/

/-- The stretch is balanced and ends where an operand can end. -/
structure Cut (p : List Lexeme) : Prop where
  closed : depth p = 0
  closes : ∃ init l, p = init ++ [l] ∧ closesOperand l = true

theorem Cut.ne_nil (h : Cut p) : p ≠ [] := by
  obtain ⟨init, l, rfl, -⟩ := h.closes
  simp

theorem Cut.of_append (h : Cut (ls ++ m :: p)) (hls : depth ls = 0) (hturn : turn m = 0)
    (hm : closesOperand m = false) : Cut p := by
  obtain ⟨init, l, heq, hl⟩ := h.closes
  have hclosed := h.closed
  rw [depth_append, depth_cons, hls] at hclosed
  obtain rfl | ⟨p', x, hconcat⟩ := eq_nil_or_concat p
  · obtain ⟨-, hlast⟩ := append_inj' heq rfl
    obtain rfl := (cons.inj hlast).1
    rw [hm] at hl
    cases hl
  · rw [concat_eq_append] at hconcat
    subst hconcat
    refine ⟨by omega, p', x, rfl, ?_⟩
    rw [← cons_append, ← append_assoc] at heq
    obtain ⟨-, hlast⟩ := append_inj' heq rfl
    obtain rfl := (cons.inj hlast).1
    exact hl

theorem Cut.of_cons (h : Cut (m :: p)) (hturn : turn m = 0) (hm : closesOperand m = false) :
    Cut p := by
  rw [← nil_append (m :: p)] at h
  exact h.of_append rfl hturn hm

theorem append_cons_eq_append_cons {n : Lexeme} (h : p ++ m :: q = ls ++ n :: ms) :
    (∃ a, ls = p ++ m :: a ∧ q = a ++ n :: ms) ∨ (p = ls ∧ m = n ∧ q = ms) ∨
      ∃ a, p = ls ++ n :: a ∧ ms = a ++ m :: q := by
  obtain ⟨a, rfl, ha⟩ | ⟨a, rfl, ha⟩ := append_eq_append_iff.1 h
  · cases a with
    | nil =>
      obtain ⟨rfl, rfl⟩ := cons.inj ha
      exact .inr (.inl ⟨(append_nil p).symm, rfl, rfl⟩)
    | cons l a =>
      obtain ⟨rfl, rfl⟩ := cons.inj ha
      exact .inl ⟨a, rfl, rfl⟩
  · cases a with
    | nil =>
      obtain ⟨rfl, rfl⟩ := cons.inj ha
      exact .inr (.inl ⟨append_nil ls, rfl, rfl⟩)
    | cons l a =>
      obtain ⟨rfl, rfl⟩ := cons.inj ha
      exact .inr (.inr ⟨a, rfl, rfl⟩)

theorem Spells.balanced {f : Form} (h : Spells f ls) : Balanced ls := by
  induction h with
  | word _ | number | quoted => exact balanced_singleton rfl
  | group _ ih | list _ ih => exact ih.enclose rfl rfl
  | field _ _ _ ih => exact ih.append ((balanced_singleton rfl).append (balanced_singleton rfl))
  | call _ _ _ iht ihts => exact iht.append (ihts.enclose rfl rfl)
  | index _ _ _ iht ihi => exact iht.append (ihi.enclose rfl rfl)
  | lead hm _ _ ih => exact (balanced_singleton (leads_facts _ hm).1).append ih
  | join hm _ _ _ _ iha ihb | chain hm _ _ _ iha ihb =>
    exact iha.append ((balanced_singleton (joins_facts _ hm).1).append ihb)
  | nothing => exact balanced_nil
  | one _ ih => exact ih
  | more _ _ iht ihts => exact iht.append ((balanced_singleton rfl).append ihts)

theorem Spells.cut {t : Tree} (h : Spells (.tree k t) ls) :
    Cut ls := by
  refine ⟨h.balanced.closed, ?_⟩
  generalize hf : Form.tree k t = f at h
  induction h generalizing k t with
  | word hx => exact ⟨[], _, rfl, closesOperand_of_isAtomWord hx⟩
  | number | quoted => exact ⟨[], _, rfl, rfl⟩
  | group | list => exact ⟨_ :: _, _, rfl, rfl⟩
  | @field k t x ls _ _ hx =>
    exact ⟨ls ++ [.symbol "."], .word x, by simp, closesOperand_of_isAtomWord (isAtomWord_of_isFieldWord hx)⟩
  | @call k t ts ls ms => exact ⟨ls ++ .symbol "(" :: ms, .symbol ")", by simp, rfl⟩
  | @index k j t i ls ms => exact ⟨ls ++ .symbol "[" :: ms, .symbol "]", by simp, rfl⟩
  | @lead k j m op t ls _ _ _ ih =>
    obtain ⟨init, l, rfl, hl⟩ := ih rfl
    exact ⟨m :: init, l, rfl, hl⟩
  | @join j k k' m op a b ls ms _ _ _ _ _ _ ih | @chain k m op a b ls ms _ _ _ _ _ ih =>
    obtain ⟨init, l, rfl, hl⟩ := ih rfl
    exact ⟨ls ++ m :: init, l, by simp, hl⟩
  | nothing | one | more => cases hf

theorem Cut.append_ne_singleton (hp : Cut p) :
    p ++ m :: q ≠ [l] := by
  intro heq
  have hlen := congrArg length heq
  have := length_pos_iff.2 hp.ne_nil
  grind

theorem Cut.eq_append_of_applied {vs : List Lexeme} (hp : Cut p) (hm : turn m = 0)
    (hus : Balanced us) (hvs : Balanced vs) (ho : turn o = 1)
    (h : p ++ m :: q = us ++ o :: (vs ++ [c])) : ∃ a, p ++ m :: a = us := by
  obtain ⟨a, rfl, -⟩ | ⟨-, rfl, -⟩ | ⟨a, rfl, ha⟩ := append_cons_eq_append_cons h
  · exact ⟨a, rfl⟩
  · omega
  · have hclosed := hp.closed
    have hpos : 0 < depth (o :: a) :=
      depth_pos_of_enclosed hvs ho (congrArg (cons o) ha) (cons_ne_nil o a)
    rw [depth_append, hus.closed] at hclosed
    omega

theorem Cut.le_of_joined {n : Lexeme} (hp : Cut p) (hm : Separates r m) (hn : (n, j, op) ∈ joins)
    (hls : Balanced ls) (h : p ++ m :: q = ls ++ n :: ms) (hleft : ∀ c, p ++ m :: c = ls → j ≤ r)
    (hright : ∀ c, Cut c → c ++ m :: q = ms → j ≤ r) : j ≤ r := by
  obtain ⟨hturn, hcloses, hcomma, -, -⟩ := joins_facts _ hn
  obtain ⟨c, rfl, -⟩ | ⟨rfl, rfl, rfl⟩ | ⟨c, rfl, hc⟩ := append_cons_eq_append_cons h
  · exact hleft c rfl
  · rcases hm with ⟨heq, -⟩ | ⟨op', hop'⟩
    · exact absurd heq hcomma
    · have := joins_unique _ hn _ hop' rfl
      simp only [Prod.mk.injEq] at this
      omega
  · exact hright c (hp.of_append hls.closed hturn hcloses) hc.symm

/-- **Separators.** An operator that stands between operands, outside all brackets, is at least as
tight as the whole. -/
theorem Spells.le_of_separates {t : Tree} (h : Spells (.tree k t) ls) (hls : p ++ m :: q = ls)
    (hp : Cut p) (hm : Separates r m) :
    k ≤ r := by
  generalize hf : Form.tree k t = f at h
  obtain ⟨hturn, -, hdot, -⟩ := hm.facts
  -- The separator stands in no brackets, so it is in one of the operands or is the operator itself.
  induction h generalizing k t p q with
  | word _ | number | quoted => exact absurd hls hp.append_ne_singleton
  | group ht => exact absurd hls (append_ne_enclosed ht.balanced rfl hp.closed hp.ne_nil)
  | list hts => exact absurd hls (append_ne_enclosed hts.balanced rfl hp.closed hp.ne_nil)
  | field hk ht _ ih =>
    cases hf
    obtain ⟨a, rfl, -⟩ | ⟨-, rfl, -⟩ | ⟨a, rfl, ha⟩ := append_cons_eq_append_cons hls
    · exact Nat.le_trans hk (ih rfl hp rfl)
    · exact absurd rfl hdot
    · have hcut := hp.of_append ht.balanced.closed rfl rfl
      exact absurd ha.symm hcut.append_ne_singleton
  | call hk ht hts ih =>
    cases hf
    obtain ⟨a, rfl⟩ := hp.eq_append_of_applied hturn ht.balanced hts.balanced rfl hls
    exact Nat.le_trans hk (ih rfl hp rfl)
  | index hk ht hi ih =>
    cases hf
    obtain ⟨a, rfl⟩ := hp.eq_append_of_applied hturn ht.balanced hi.balanced rfl hls
    exact Nat.le_trans hk (ih rfl hp rfl)
  | lead hlead hk _ ih =>
    cases hf
    obtain ⟨hn, hcloses, -, -⟩ := leads_facts _ hlead
    cases p with
    | nil => exact absurd rfl hp.ne_nil
    | cons n p =>
      obtain ⟨rfl, htail⟩ := cons.inj hls
      exact Nat.le_trans hk (ih htail (hp.of_cons hn hcloses) rfl)
  | join hjoin hk ha hk' _ iha ihb =>
    cases hf
    refine hp.le_of_joined hm hjoin ha.balanced hls (fun c hc => ?_) fun c hcut hc => ?_
    · have := iha hc hp rfl
      rw [leftRank] at hk
      split at hk <;> omega
    · have := ihb hc hcut rfl
      omega
  | chain hjoin ha hk _ iha ihb =>
    cases hf
    refine hp.le_of_joined hm hjoin ha.balanced hls (fun c hc => iha hc hp rfl) fun c hcut hc => ?_
    have := ihb hc hcut rfl
    omega
  | nothing | one | more => cases hf

def startsOperand : Lexeme → Bool
  | .word x => isAtomWord x
  | .number _ => true
  | .quoted _ => true
  | .symbol x => x == "(" || x == "["

theorem not_startsOperand_of_leads : ∀ x ∈ leads, startsOperand x.1 = false := by decide

theorem Spells.head {t : Tree} (h : Spells (.tree k t) ls) :
    ∃ l ms, ls = l :: ms ∧ ∀ j op, (l, j, op) ∈ leads → k ≤ j := by
  have hoperand : ∀ {l : Lexeme} {k : Nat}, startsOperand l = true →
      ∀ j op, (l, j, op) ∈ leads → k ≤ j := by
    intro l k hl j op hmem
    have := not_startsOperand_of_leads _ hmem
    rw [hl] at this
    cases this
  generalize hf : Form.tree k t = f at h
  induction h generalizing k t with
  | word hx => exact ⟨_, [], rfl, hoperand hx⟩
  | number | quoted => exact ⟨_, [], rfl, hoperand rfl⟩
  | group | list => exact ⟨_, _, rfl, hoperand rfl⟩
  | field hk _ _ ih | call hk _ _ ih | index hk _ _ ih =>
    cases hf
    obtain ⟨l, ms, rfl, hl⟩ := ih rfl
    exact ⟨l, _, rfl, fun j op hmem => Nat.le_trans hk (hl j op hmem)⟩
  | lead hm =>
    cases hf
    refine ⟨_, _, rfl, fun j op hmem => ?_⟩
    have := leads_unique _ hm _ hmem rfl
    simp only [Prod.mk.injEq] at this
    omega
  | join _ hk _ _ _ ih =>
    cases hf
    obtain ⟨l, ms, rfl, hl⟩ := ih rfl
    refine ⟨l, _, rfl, fun j op hmem => ?_⟩
    have := hl j op hmem
    rw [leftRank] at hk
    split at hk <;> omega
  | chain _ _ _ _ ih =>
    cases hf
    obtain ⟨l, ms, rfl, hl⟩ := ih rfl
    exact ⟨l, _, rfl, hl⟩
  | nothing | one | more => cases hf

theorem Spells.ne_nil {t : Tree} (h : Spells (.tree k t) ls) : ls ≠ [] := h.cut.ne_nil

theorem Spells.rank_pos {t : Tree} (h : Spells (.tree k t) ls) :
    1 ≤ k := by
  cases h with
  | lead hm => exact (leads_rank hm).1
  | join hm => exact (joins_rank hm).1
  | _ => decide

theorem Spells.rank_le {t : Tree} (h : Spells (.tree k t) ls) :
    k ≤ 9 := by
  cases h with
  | lead hm => exact Nat.le_trans (leads_rank hm).2 (by decide)
  | join hm => exact Nat.le_trans (joins_rank hm).2 (by decide)
  | _ => decide

/-! ## One reading -/

theorem Spells.rank_of_applied {t u : Tree} (ht : Spells (.tree k t) ls)
    (h : Spells (.tree j u) (ls ++ m :: ms)) : j ≤ 8 := by
  generalize hv : ls ++ m :: ms = vs at h
  have hsingle : ∀ l : Lexeme, vs ≠ [l] := by
    rintro l rfl
    exact ht.cut.append_ne_singleton hv
  have henclosed : ∀ {o c : Lexeme} {us : List Lexeme}, Balanced us → turn o = 1 →
      vs ≠ o :: (us ++ [c]) :=
    fun hus ho heq => append_ne_enclosed hus ho ht.balanced.closed ht.ne_nil (hv.trans heq)
  cases h with
  | word | number | quoted => exact absurd rfl (hsingle _)
  | group hus | list hus => exact absurd rfl (henclosed hus.balanced rfl)
  | lead hm => exact Nat.le_trans (leads_rank hm).2 (by decide)
  | join hm => exact Nat.le_trans (joins_rank hm).2 (by decide)
  | _ => decide

theorem Spells.rank_le_rank {t u : Tree} (h : Spells (.tree k t) ls) (h' : Spells (.tree j u) ls) :
    j ≤ k := by
  cases h with
  | field _ ht _ | call _ ht _ | index _ ht _ => exact ht.rank_of_applied h'
  | lead hm =>
    obtain ⟨l, ms, heq, hl⟩ := h'.head
    obtain ⟨rfl, -⟩ := cons.inj heq
    exact hl _ _ hm
  | join hm _ ha | chain hm ha => exact h'.le_of_separates rfl ha.cut (.inr ⟨_, hm⟩)
  | _ => exact h'.rank_le

theorem Spells.rank_eq {t u : Tree} (h : Spells (.tree k t) ls) (h' : Spells (.tree j u) ls) :
    j = k :=
  Nat.le_antisymm (h.rank_le_rank h') (h'.rank_le_rank h)

theorem Spells.joined_inj {k' i i' : Nat} {op' : BinaryOp} {a a' b b' : Tree}
    {ls' ms' : List Lexeme} {m' : Lexeme} (ha : Spells (.tree k a) ls)
    (ha' : Spells (.tree k' a') ls') (hm : (m, j, op) ∈ joins) (hm' : (m', j, op') ∈ joins)
    (hb : Spells (.tree i b) ms) (hb' : Spells (.tree i' b') ms') (hi : j < i) (hi' : j < i')
    (h : ls ++ m :: ms = ls' ++ m' :: ms') : ls = ls' ∧ m = m' ∧ ms = ms' := by
  obtain ⟨hturn, hcloses, -, -, -⟩ := joins_facts _ hm
  obtain ⟨hturn', hcloses', -, -, -⟩ := joins_facts _ hm'
  obtain ⟨c, rfl, rfl⟩ | heq | ⟨c, rfl, rfl⟩ := append_cons_eq_append_cons h
  · have hcut := ha'.cut.of_append ha.balanced.closed hturn hcloses
    have := hb.le_of_separates rfl hcut (.inr ⟨_, hm'⟩)
    omega
  · exact heq
  · have hcut := ha.cut.of_append ha'.balanced.closed hturn' hcloses'
    have := hb'.le_of_separates rfl hcut (.inr ⟨_, hm⟩)
    omega

theorem Spells.atom_cases {u : Tree} (h : Spells (.tree 9 u) ls) :
    (∃ x, ls = [.word x] ∧ u = .word x) ∨ (∃ x, ls = [.number x] ∧ u = .number x) ∨
      (∃ x, ls = [.quoted x] ∧ u = .quoted x) ∨
      (∃ k us, ls = .symbol "(" :: (us ++ [.symbol ")"]) ∧ Spells (.tree k u) us) ∨
      ∃ ts us, ls = .symbol "[" :: (us ++ [.symbol "]"]) ∧ u = .list ts ∧ Spells (.items ts) us := by
  cases h with
  | word => exact .inl ⟨_, rfl, rfl⟩
  | number => exact .inr (.inl ⟨_, rfl, rfl⟩)
  | quoted => exact .inr (.inr (.inl ⟨_, rfl, rfl⟩))
  | group ht => exact .inr (.inr (.inr (.inl ⟨_, _, rfl, ht⟩)))
  | list hts => exact .inr (.inr (.inr (.inr ⟨_, _, rfl, rfl, hts⟩)))
  | lead hm => have := leads_rank hm; omega
  | join hm => have := joins_rank hm; omega

theorem Spells.applied_cases {u : Tree} (h : Spells (.tree 8 u) ls) :
    (∃ k t x us, ls = us ++ [.symbol ".", .word x] ∧ u = .field t x ∧ Spells (.tree k t) us) ∨
      (∃ k t ts us vs, ls = us ++ .symbol "(" :: (vs ++ [.symbol ")"]) ∧ u = .call t ts ∧
        Spells (.tree k t) us ∧ Spells (.items ts) vs) ∨
      ∃ k j t i us vs, ls = us ++ .symbol "[" :: (vs ++ [.symbol "]"]) ∧ u = .index t i ∧
        Spells (.tree k t) us ∧ Spells (.tree j i) vs := by
  cases h with
  | field _ ht _ => exact .inl ⟨_, _, _, _, rfl, rfl, ht⟩
  | call _ ht hts => exact .inr (.inl ⟨_, _, _, _, _, rfl, rfl, ht, hts⟩)
  | index _ ht hi => exact .inr (.inr ⟨_, _, _, _, _, _, rfl, rfl, ht, hi⟩)
  | lead hm => have := leads_rank hm; omega
  | join hm => have := joins_rank hm; omega

theorem leads_rank_ne_joins : ∀ x ∈ leads, ∀ y ∈ joins, x.2.1 ≠ y.2.1 := by decide

theorem Spells.lead_cases {op : UnaryOp} {u : Tree} (hm : (m, j, op) ∈ leads)
    (h : Spells (.tree j u) (m :: ls)) :
    ∃ k t, u = .unary op t ∧ Spells (.tree k t) ls := by
  have hbound : ∀ x ∈ leads, x.2.1 ≠ 8 ∧ x.2.1 ≠ 9 ∧ x.2.1 ≠ 4 := by decide
  obtain ⟨h8, h9, h4⟩ := hbound _ hm
  generalize hls : m :: ls = ms at h
  cases h with
  | lead hm' _ ht =>
    obtain ⟨rfl, rfl⟩ := cons.inj hls
    have heq := leads_unique _ hm _ hm' rfl
    simp only [Prod.mk.injEq, true_and] at heq
    rw [heq]
    exact ⟨_, _, rfl, ht⟩
  | join hm' => exact absurd rfl (leads_rank_ne_joins _ hm _ hm')
  | chain => exact absurd rfl h4
  | field | call | index => exact absurd rfl h8
  | _ => exact absurd rfl h9

theorem Spells.join_cases {u : Tree} (hm : (m, j, op) ∈ joins) (h : Spells (.tree j u) ls) :
    ∃ n op' k k' a b us vs, (n, j, op') ∈ joins ∧ ls = us ++ n :: vs ∧ Spells (.tree k a) us ∧
      j < k' ∧ Spells (.tree k' b) vs ∧
      (u = .binary a op' b ∧ leftRank j ≤ k ∨ u = .chain a op' b ∧ j = 4 ∧ k = 4) := by
  have hle := joins_rank hm
  generalize hj : j = j' at h
  cases h with
  | lead hm' => subst hj; exact absurd rfl (leads_rank_ne_joins _ hm' _ hm)
  | join hm' hk ha hk' hb =>
    exact ⟨_, _, _, _, _, _, _, _, hm', rfl, ha, hk', hb, .inl ⟨rfl, hk⟩⟩
  | chain hm' ha hk hb =>
    exact ⟨_, _, _, _, _, _, _, _, hm', rfl, ha, hk, hb, .inr ⟨rfl, rfl, rfl⟩⟩
  | _ => omega

def Form.Only (f : Form) (ls : List Lexeme) : Prop :=
  match f with
  | .tree _ t => ∀ j u, Spells (.tree j u) ls → u = t
  | .items ts => ∀ us, Spells (.items us) ls → us = ts

theorem Spells.comma_inj {k' : Nat} {t t' : Tree} {ls' ms' : List Lexeme}
    (ht : Spells (.tree k t) ls) (ht' : Spells (.tree k' t') ls')
    (h : ls ++ .symbol "," :: ms = ls' ++ .symbol "," :: ms') : ls = ls' ∧ ms = ms' := by
  have hpos := ht.rank_pos
  have hpos' := ht'.rank_pos
  obtain ⟨c, hc, -⟩ | ⟨heq, -, heq'⟩ | ⟨c, hc, -⟩ := append_cons_eq_append_cons h
  · have := ht'.le_of_separates hc.symm ht.cut (.inl ⟨rfl, rfl⟩)
    omega
  · exact ⟨heq, heq'⟩
  · have := ht.le_of_separates hc.symm ht'.cut (.inl ⟨rfl, rfl⟩)
    omega

theorem Spells.items_cases {us : List Tree} (h : Spells (.items us) ls) :
    (us = [] ∧ ls = []) ∨ (∃ k u, us = [u] ∧ Spells (.tree k u) ls) ∨
      ∃ k u v vs ms ns, us = u :: v :: vs ∧ ls = ms ++ .symbol "," :: ns ∧
        Spells (.tree k u) ms ∧ Spells (.items (v :: vs)) ns := by
  cases h with
  | nothing => exact .inl ⟨rfl, rfl⟩
  | one ht => exact .inr (.inl ⟨_, _, rfl, ht⟩)
  | more ht hts => exact .inr (.inr ⟨_, _, _, _, _, _, rfl, rfl, ht, hts⟩)

def Lexeme.leaf : Lexeme → Tree
  | .word x => .word x
  | .number x => .number x
  | .quoted x => .quoted x
  | .symbol x => .word x

theorem Spells.eq_leaf {u : Tree} (h : Spells (.tree j u) [l]) :
    u = l.leaf := by
  generalize hls : [l] = ls at h
  cases h with
  | word | number | quoted => cases hls; rfl
  | group | list => simp at hls
  | field _ ht | call _ ht | index _ ht => exact absurd hls.symm ht.cut.append_ne_singleton
  | lead _ _ ht => exact absurd (cons.inj hls).2.symm ht.ne_nil
  | join _ _ ha | chain _ ha => exact absurd hls.symm ha.cut.append_ne_singleton

theorem Spells.of_group {u : Tree} (h : Spells (.tree j u) (.symbol "(" :: (ls ++ [.symbol ")"])))
    (hj : j = 9) :
    ∃ k, Spells (.tree k u) ls := by
  subst hj
  obtain ⟨y, heq, -⟩ | ⟨y, heq, -⟩ | ⟨y, heq, -⟩ | ⟨k, us, heq, hu⟩ | ⟨ts, us, heq, -⟩ := h.atom_cases
  · cases heq
  · cases heq
  · cases heq
  · obtain rfl := (append_inj' (cons.inj heq).2 rfl).1
    exact ⟨k, hu⟩
  · exact absurd (cons.inj heq).1 (by decide)

theorem Spells.of_list {u : Tree} (h : Spells (.tree j u) (.symbol "[" :: (ls ++ [.symbol "]"])))
    (hj : j = 9) :
    ∃ ts, u = .list ts ∧ Spells (.items ts) ls := by
  subst hj
  obtain ⟨y, heq, -⟩ | ⟨y, heq, -⟩ | ⟨y, heq, -⟩ | ⟨k, us, heq, -⟩ | ⟨ts, us, heq, hu, hts⟩ := h.atom_cases
  · cases heq
  · cases heq
  · cases heq
  · exact absurd (cons.inj heq).1 (by decide)
  · obtain rfl := (append_inj' (cons.inj heq).2 rfl).1
    exact ⟨ts, hu, hts⟩

@[simp] theorem getLast?_cons_concat (o c : Lexeme) (us : List Lexeme) :
    (o :: (us ++ [c])).getLast? = some c := by
  rw [← cons_append, getLast?_concat]

theorem Spells.of_field {u : Tree} (h : Spells (.tree j u) (ls ++ [.symbol ".", .word x]))
    (hj : j = 8) :
    ∃ k t, u = .field t x ∧ Spells (.tree k t) ls := by
  subst hj
  obtain ⟨k, t, y, us, heq, rfl, hus⟩ | ⟨_, _, _, us, vs, heq, -⟩ | ⟨_, _, _, _, us, vs, heq, -⟩ :=
    h.applied_cases
  · obtain ⟨rfl, hlast⟩ := append_inj' heq rfl
    cases hlast
    exact ⟨k, t, rfl, hus⟩
  · exact absurd (congrArg getLast? heq) (by simp)
  · exact absurd (congrArg getLast? heq) (by simp)

theorem Spells.of_call {u : Tree} (hms : Balanced ms)
    (h : Spells (.tree j u) (ls ++ .symbol "(" :: (ms ++ [.symbol ")"]))) (hj : j = 8) :
    ∃ k t ts, u = .call t ts ∧ Spells (.tree k t) ls ∧ Spells (.items ts) ms := by
  subst hj
  obtain ⟨_, _, _, us, heq, -⟩ | ⟨k, t, ts, us, vs, heq, hu, ht, hts⟩ | ⟨_, _, _, _, us, vs, heq, -⟩ :=
    h.applied_cases
  · exact absurd (congrArg getLast? heq) (by simp)
  · obtain ⟨rfl, rfl⟩ := enclosed_inj hms hts.balanced rfl rfl heq
    exact ⟨k, t, ts, hu, ht, hts⟩
  · exact absurd (congrArg getLast? heq) (by simp)

theorem Spells.of_index {u : Tree} (hms : Balanced ms)
    (h : Spells (.tree j u) (ls ++ .symbol "[" :: (ms ++ [.symbol "]"]))) (hj : j = 8) :
    ∃ k i t p, u = .index t p ∧ Spells (.tree k t) ls ∧ Spells (.tree i p) ms := by
  subst hj
  obtain ⟨_, _, _, us, heq, -⟩ | ⟨_, _, _, us, vs, heq, -⟩ | ⟨k, i, t, p, us, vs, heq, hu, ht, hp⟩ :=
    h.applied_cases
  · exact absurd (congrArg getLast? heq) (by simp)
  · exact absurd (congrArg getLast? heq) (by simp)
  · obtain ⟨rfl, rfl⟩ := enclosed_inj hms hp.balanced rfl rfl heq
    exact ⟨k, i, t, p, hu, ht, hp⟩

theorem Spells.only {f : Form} (h : Spells f ls) : f.Only ls := by
  -- A second spelling has the rank of the first, hence its last rule, and that rule joins its parts at
  -- the same place.
  induction h with
  | word | number | quoted => exact fun j u h' => h'.eq_leaf
  | group ht ih =>
    intro j u h'
    obtain ⟨k, hu⟩ := h'.of_group ((Spells.group ht).rank_eq h')
    exact ih k u hu
  | list hts ih =>
    intro j u h'
    obtain ⟨us, rfl, hus⟩ := h'.of_list ((Spells.list hts).rank_eq h')
    rw [ih us hus]
  | field hk ht hx ih =>
    intro j u h'
    obtain ⟨k, u, rfl, hu⟩ := h'.of_field ((Spells.field hk ht hx).rank_eq h')
    rw [ih k u hu]
  | call hk ht hts iht ihts =>
    intro j u h'
    obtain ⟨k, u, us, rfl, hu, hus⟩ := Spells.of_call hts.balanced h' ((Spells.call hk ht hts).rank_eq h')
    rw [iht k u hu, ihts us hus]
  | index hk ht hi iht ihi =>
    intro j u h'
    obtain ⟨k, i, u, p, rfl, hu, hp⟩ := Spells.of_index hi.balanced h' ((Spells.index hk ht hi).rank_eq h')
    rw [iht k u hu, ihi i p hp]
  | lead hm hk ht ih =>
    intro j u h'
    obtain rfl := (Spells.lead hm hk ht).rank_eq h'
    obtain ⟨k, u, rfl, hu⟩ := h'.lead_cases hm
    rw [ih k u hu]
  | join hm hk ha hk' hb iha ihb =>
    intro j u h'
    obtain rfl := (Spells.join hm hk ha hk' hb).rank_eq h'
    obtain ⟨n, op, i, i', a, b, us, vs, hn, heq, hus, hi', hvs, hu⟩ := h'.join_cases hm
    obtain ⟨rfl, rfl, rfl⟩ := Spells.joined_inj ha hus hm hn hb hvs hk' hi' heq
    have hop := joins_unique _ hm _ hn rfl
    simp only [Prod.mk.injEq, true_and] at hop
    rcases hu with ⟨rfl, -⟩ | ⟨-, rfl, rfl⟩
    · rw [iha i a hus, ihb i' b hvs, hop]
    · -- A comparison whose left side is one too would be chained, and grouped here.
      have := ha.rank_eq hus
      rw [leftRank, if_pos rfl] at hk
      omega
  | chain hm ha hk hb iha ihb =>
    intro j u h'
    obtain rfl := (Spells.chain hm ha hk hb).rank_eq h'
    obtain ⟨n, op, i, i', a, b, us, vs, hn, heq, hus, hi', hvs, hu⟩ := h'.join_cases hm
    obtain ⟨rfl, rfl, rfl⟩ := Spells.joined_inj ha hus hm hn hb hvs hk hi' heq
    have hop := joins_unique _ hm _ hn rfl
    simp only [Prod.mk.injEq, true_and] at hop
    rcases hu with ⟨-, hi⟩ | ⟨rfl, -⟩
    · have := ha.rank_eq hus
      rw [leftRank, if_pos rfl] at hi
      omega
    · rw [iha i a hus, ihb i' b hvs, hop]
  | nothing =>
    intro us h'
    obtain ⟨rfl, -⟩ | ⟨k, u, -, hu⟩ | ⟨_, _, _, _, ms, ns, -, heq, -⟩ := h'.items_cases
    · rfl
    · exact absurd rfl hu.ne_nil
    · simp at heq
  | one ht ih =>
    intro us h'
    obtain ⟨-, rfl⟩ | ⟨k, u, rfl, hu⟩ | ⟨_, _, _, _, ms, ns, -, heq, hms, -⟩ := h'.items_cases
    · exact absurd rfl ht.ne_nil
    · rw [ih k u hu]
    · have := ht.le_of_separates heq.symm hms.cut (.inl ⟨rfl, rfl⟩)
      have := ht.rank_pos
      omega
  | more ht hts iht ihts =>
    intro us h'
    obtain ⟨-, heq⟩ | ⟨k, u, -, hu⟩ | ⟨k, u, v, vs, ms, ns, rfl, heq, hms, hns⟩ := h'.items_cases
    · simp at heq
    · have := hu.le_of_separates rfl ht.cut (.inl ⟨rfl, rfl⟩)
      have := hu.rank_pos
      omega
    · obtain ⟨rfl, rfl⟩ := Spells.comma_inj ht hms heq
      rw [iht k u hms, ihts _ hns]

/-- **The grammar is unambiguous.** -/
theorem Spells.unique {t u : Tree} (h : Spells (.tree k t) ls) (h' : Spells (.tree j u) ls) :
    u = t :=
  h.only j u h'

theorem Reads.unique {text : String} {t u : Tree} (h : Reads text t) (h' : Reads text u) :
    u = t := by
  obtain ⟨k, ls, hlex, hls⟩ := h
  obtain ⟨j, ms, hlex', hms⟩ := h'
  rw [hlex] at hlex'
  cases hlex'
  exact hls.unique hms

/-! ## What parentheses cannot change -/

def joinLexeme : BinaryOp → Lexeme
  | .or => .word "or"
  | .and => .word "and"
  | op => .symbol op.symbol

def leadLexeme : UnaryOp → Lexeme
  | .not => .word "not"
  | .negate => .symbol "-"

theorem eq_joinLexeme : ∀ x ∈ joins, x.1 = joinLexeme x.2.2 := by decide

theorem eq_leadLexeme : ∀ x ∈ leads, x.1 = leadLexeme x.2.2 := by decide

def bare (ls : List Lexeme) : List Lexeme := ls.filter fun l => l ≠ .symbol "(" ∧ l ≠ .symbol ")"

@[simp] theorem bare_append (ls ms : List Lexeme) : bare (ls ++ ms) = bare ls ++ bare ms :=
  filter_append ls ms

theorem bare_cons (ls : List Lexeme) (hl : turn l = 0) :
    bare (l :: ls) = l :: bare ls := by
  refine filter_cons_of_pos ?_
  rw [decide_eq_true_iff]
  constructor <;> rintro rfl <;> exact absurd hl (by decide)

theorem bare_group (ls : List Lexeme) :
    bare (.symbol "(" :: (ls ++ [.symbol ")"])) = bare ls := by
  have hopen : bare (.symbol "(" :: (ls ++ [.symbol ")"])) = bare (ls ++ [.symbol ")"]) :=
    filter_cons_of_neg (by decide)
  rw [hopen, bare_append]
  exact append_nil _

theorem bare_brackets (ls : List Lexeme) :
    bare (.symbol "[" :: (ls ++ [.symbol "]"])) = .symbol "[" :: (bare ls ++ [.symbol "]"]) := by
  have hopen : bare (.symbol "[" :: (ls ++ [.symbol "]"])) =
      .symbol "[" :: bare (ls ++ [.symbol "]"]) := filter_cons_of_pos (by decide)
  rw [hopen, bare_append]
  rfl

mutual

def Tree.bare : Tree → List Lexeme
  | .word x => [.word x]
  | .number x => [.number x]
  | .quoted x => [.quoted x]
  | .field t x => t.bare ++ [.symbol ".", .word x]
  | .call t ts => t.bare ++ bareItems ts
  | .index t i => t.bare ++ .symbol "[" :: (i.bare ++ [.symbol "]"])
  | .list ts => .symbol "[" :: (bareItems ts ++ [.symbol "]"])
  | .unary op t => leadLexeme op :: t.bare
  | .binary a op b => a.bare ++ joinLexeme op :: b.bare
  | .chain a op b => a.bare ++ joinLexeme op :: b.bare

def bareItems : List Tree → List Lexeme
  | [] => []
  | [t] => t.bare
  | t :: ts => t.bare ++ .symbol "," :: bareItems ts

end

def Form.bare : Form → List Lexeme
  | .tree _ t => t.bare
  | .items ts => bareItems ts

theorem Spells.bare_eq {f : Form} (h : Spells f ls) : bare ls = f.bare := by
  induction h with
  | word | number | quoted | nothing => rfl
  | group _ ih => rw [bare_group, ih]; rfl
  | list _ ih => rw [bare_brackets, ih, Form.bare, Form.bare, Tree.bare]
  | field _ _ _ ih => rw [bare_append, ih, Form.bare, Form.bare, Tree.bare]; rfl
  | call _ _ _ iht ihts => rw [bare_append, bare_group, iht, ihts]; simp only [Form.bare, Tree.bare]
  | index _ _ _ iht ihi =>
    rw [bare_append, bare_brackets, iht, ihi]
    simp only [Form.bare, Tree.bare]
  | lead hm _ _ ih =>
    rw [bare_cons _ (leads_facts _ hm).1, ih, Form.bare, Form.bare, Tree.bare, ← eq_leadLexeme _ hm]
  | join hm _ _ _ _ iha ihb | chain hm _ _ _ iha ihb =>
    rw [bare_append, bare_cons _ (joins_facts _ hm).1, iha, ihb]
    simp only [Form.bare, Tree.bare, ← eq_joinLexeme _ hm]
  | one _ ih => rw [ih]; simp only [Form.bare, bareItems]
  | more _ _ iht ihts =>
    rw [bare_append, bare_cons _ rfl, iht, ihts]
    simp only [Form.bare, bareItems]

end ScriptWorkbench.Target
