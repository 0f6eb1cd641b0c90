/-
Which expressions keep their grouping when they are written without parentheses of their own.

The emitter sets parentheses around binary operators and nowhere else, so `(-a).b` comes out as `-a.b`. This
file says what the emitter means by an expression (`shape`), which lexemes it writes for it (`lexemes`), and
for which expressions the second are a spelling of the first (`grouped`): where every operand holds together
at least as tightly as its place demands.

Main statement: `Produced.spells_iff`. One direction builds the spelling along the tree. The other needs that
a spelling can only be split where the emitter joined it, which follows from the brackets for calls and
indices, and for operators from the fact that parentheses are the only lexemes a spelling can vary.
-/
import ScriptWorkbench.Proofs.TargetGrammar
import ScriptWorkbench.Target.Render

namespace ScriptWorkbench.Target

open Ast List

variable {e : Expr} {op : BinaryOp} {k : Nat} {ls ms : List Lexeme} {ts : List Tree} {t : Tree}

/-! ## What is meant and what is written -/

def literalLexeme (v : Literal) : Lexeme :=
  match v with
  | .int _ => .number v.quoted
  | .real (.finite ..) => .number v.quoted
  | .real _ => .word v.quoted
  | .text _ => .quoted v.quoted
  | .truth _ => .word v.quoted

def alias? (callee : Expr) : Option String := (dottedName? callee).bind fun n => callAliases.lookup n

mutual

/-- The tree that the text of an expression is meant to be. The last value of a range belongs to it,
so the range ends one further. -/
def shape : Expr → Tree
  | .literal v => (literalLexeme v).leaf
  | .name n => .word n
  | .this => .word "self"
  | .attribute target field => .field (shape target) field
  | .unary op operand => .unary op (shape operand)
  | .binary left op right => .binary (shape left) op (shape right)
  | .range first last => .call (.word "range") [shape first, .binary (shape last) .add (.number "1")]
  | .list elements => .list (shapes elements)
  | .index target position => .index (shape target) (shape position)
  | .call callee arguments =>
    .call (match alias? callee with
      | some name => .word name
      | none => shape callee) (shapes arguments)
  | .foreign _ => .word ""

def shapes : List Expr → List Tree
  | [] => []
  | e :: es => shape e :: shapes es

end

mutual

def lexemes : Expr → List Lexeme
  | .literal v => [literalLexeme v]
  | .name n => [.word n]
  | .this => [.word "self"]
  | .attribute target field => lexemes target ++ [.symbol ".", .word field]
  | .unary op operand => leadLexeme op :: lexemes operand
  | .binary left op right =>
    .symbol "(" :: (lexemes left ++ joinLexeme op :: lexemes right ++ [.symbol ")"])
  | .range first last =>
    [.word "range"] ++ .symbol "(" :: ((lexemes first ++ .symbol "," ::
      (lexemes last ++ [.symbol "+", .number "1"])) ++ [.symbol ")"])
  | .list elements => .symbol "[" :: (itemLexemes elements ++ [.symbol "]"])
  | .index target position => lexemes target ++ .symbol "[" :: (lexemes position ++ [.symbol "]"])
  | .call callee arguments =>
    (match alias? callee with
      | some name => [.word name]
      | none => lexemes callee) ++ .symbol "(" :: (itemLexemes arguments ++ [.symbol ")"])
  | .foreign _ => []

def itemLexemes : List Expr → List Lexeme
  | [] => []
  | [e] => lexemes e
  | e :: es => lexemes e ++ .symbol "," :: itemLexemes es

end

/-- How tightly the written expression holds together: only prefix operators are looser than a call. -/
def strength : Expr → Nat
  | .unary .not _ => 3
  | .unary .negate _ => 7
  | .attribute .. => 8
  | .range .. => 8
  | .index .. => 8
  | .call .. => 8
  | _ => 9

def endsWhole : Expr → Bool
  | .literal (.int _) => true
  | .unary _ operand => endsWhole operand
  | _ => false

def leadRank : UnaryOp → Nat
  | .not => 3
  | .negate => 7

def joinRank : BinaryOp → Nat
  | .or => 1
  | .and => 2
  | .equal | .notEqual | .less | .lessEqual | .greater | .greaterEqual => 4
  | .add | .subtract => 5
  | .multiply | .divide => 6
  | .other _ => 0

mutual

/-- Every operand holds together at least as tightly as its place demands, and every name is one in the
target language. An expression with a prefix operator has no attributes, calls or indices; `not` stands
only under `and`, `or` and `not`; and the end of a range is the left operand of a sum. -/
def grouped : Expr → Bool
  | .literal _ => true
  | .name n => isAtomWord n
  | .this => true
  | .attribute target field => grouped target && 8 ≤ strength target && isFieldWord field
  | .unary op operand => grouped operand && leadRank op ≤ strength operand
  | .binary left op right =>
    grouped left && grouped right && leftRank (joinRank op) ≤ strength left && joinRank op < strength right
  | .range first last => grouped first && grouped last && 5 ≤ strength last
  | .list elements => groupedAll elements
  | .index target position => grouped target && 8 ≤ strength target && grouped position
  | .call callee arguments =>
    (match alias? callee with
      | some name => isAtomWord name
      | none => grouped callee && 8 ≤ strength callee) && groupedAll arguments
  | .foreign _ => false

def groupedAll : List Expr → Bool
  | [] => true
  | e :: es => grouped e && groupedAll es

end

mutual

/-- No attribute stands behind a whole number, where its point would become part of the numeral. -/
def unglued : Expr → Bool
  | .attribute target _ => unglued target && !endsWhole target
  | .unary _ operand => unglued operand
  | .binary left _ right => unglued left && unglued right
  | .range first last => unglued first && unglued last
  | .list elements => ungluedAll elements
  | .index target position => unglued target && unglued position
  | .call callee arguments => ((alias? callee).isSome || unglued callee) && ungluedAll arguments
  | _ => true

def ungluedAll : List Expr → Bool
  | [] => true
  | e :: es => unglued e && ungluedAll es

end

/-! ## The expressions of programs -/

/-- A literal that the parser can read: numbers have no sign. -/
inductive Unsigned : Literal → Prop where
  | int (n : Nat) : Unsigned (.int n)
  | finite (significand : Nat) (exponent : Int) : Unsigned (.real (.finite false significand exponent))
  | infinite : Unsigned (.real (.infinite false))
  | nan : Unsigned (.real .nan)
  | text (s : String) : Unsigned (.text s)
  | truth (b : Bool) : Unsigned (.truth b)

inductive Subject where
  | one (e : Expr)
  | all (es : List Expr)

/-- The expressions that the parser can produce. -/
inductive Produced : Subject → Prop where
  | literal {v : Literal} : Unsigned v → Produced (.one (.literal v))
  | name {n : String} : Wordlike n.toList → Produced (.one (.name n))
  | this : Produced (.one .this)
  | field {t : Expr} {x : String} : Produced (.one t) → Wordlike x.toList → Produced (.one (.attribute t x))
  | unary {e : Expr} (op : UnaryOp) : Produced (.one e) → Produced (.one (.unary op e))
  | binary {l r : Expr} {op : BinaryOp} :
      (∀ text, op ≠ .other text) → Produced (.one l) → Produced (.one r) →
      Produced (.one (.binary l op r))
  | range {a b : Expr} : Produced (.one a) → Produced (.one b) → Produced (.one (.range a b))
  | list {es : List Expr} : Produced (.all es) → Produced (.one (.list es))
  | index {t i : Expr} : Produced (.one t) → Produced (.one i) → Produced (.one (.index t i))
  | call {c : Expr} {es : List Expr} : Produced (.one c) → Produced (.all es) → Produced (.one (.call c es))
  | nothing : Produced (.all [])
  | more {e : Expr} {es : List Expr} : Produced (.one e) → Produced (.all es) → Produced (.all (e :: es))

def Subject.lexemes : Subject → List Lexeme
  | .one e => Target.lexemes e
  | .all es => itemLexemes es

theorem mem_leads (op : UnaryOp) : (leadLexeme op, leadRank op, op) ∈ leads := by cases op <;> decide

theorem mem_joins (h : ∀ text, op ≠ .other text) :
    (joinLexeme op, joinRank op, op) ∈ joins := by
  cases op with
  | other text => exact absurd rfl (h text)
  | _ => decide

theorem turn_joinLexeme (h : ∀ text, op ≠ .other text) :
    turn (joinLexeme op) = 0 :=
  (joins_facts _ (mem_joins h)).1

theorem turn_leadLexeme (op : UnaryOp) : turn (leadLexeme op) = 0 := (leads_facts _ (mem_leads op)).1

theorem turn_literalLexeme (v : Literal) : turn (literalLexeme v) = 0 := by
  unfold literalLexeme
  split <;> rfl

theorem itemLexemes_cons_cons (e e' : Expr) (es : List Expr) :
    itemLexemes (e :: e' :: es) = lexemes e ++ .symbol "," :: itemLexemes (e' :: es) := by
  rw [itemLexemes]
  simp

theorem Balanced.rangeItems {us vs : List Lexeme} (hu : Balanced us) (hv : Balanced vs) :
    Balanced (us ++ .symbol "," :: (vs ++ [.symbol "+", .number "1"])) := by
  have hlast : Balanced (vs ++ [.symbol "+", .number "1"]) :=
    hv.append ((balanced_singleton rfl).append (balanced_singleton rfl))
  exact hu.append ((balanced_singleton rfl).append hlast)

theorem Produced.balanced {s : Subject} (h : Produced s) : Balanced s.lexemes := by
  induction h with
  | @literal v => exact balanced_singleton (turn_literalLexeme v)
  | name | this => exact balanced_singleton rfl
  | field _ _ ih => exact ih.append ((balanced_singleton rfl).append (balanced_singleton rfl))
  | unary op _ ih => exact (balanced_singleton (turn_leadLexeme op)).append ih
  | binary hop _ _ ihl ihr =>
    exact (ihl.append ((balanced_singleton (turn_joinLexeme hop)).append ihr)).enclose rfl rfl
  | range _ _ iha ihb => exact (balanced_singleton rfl).append ((iha.rangeItems ihb).enclose rfl rfl)
  | list _ ih => exact ih.enclose rfl rfl
  | index _ _ iht ihi => exact iht.append (ihi.enclose rfl rfl)
  | @call c es _ _ ihc ihes =>
    refine Balanced.append ?_ (ihes.enclose rfl rfl)
    split
    · exact balanced_singleton rfl
    · exact ihc
  | nothing => exact balanced_nil
  | @more e es _ _ ihe ihes =>
    cases es with
    | nil => exact ihe
    | cons e' es =>
      rw [Subject.lexemes, itemLexemes_cons_cons]
      exact ihe.append ((balanced_singleton rfl).append ihes)

theorem Produced.lexemes_ne_nil (h : Produced (.one e)) : lexemes e ≠ [] := by
  cases h <;> simp [Target.lexemes]

def Subject.bare : Subject → List Lexeme
  | .one e => (shape e).bare
  | .all es => bareItems (shapes es)

theorem bare_leaf {l : Lexeme} (h : ∀ x, l ≠ .symbol x) : bare [l] = l.leaf.bare := by
  cases l with
  | symbol x => exact absurd rfl (h x)
  | _ => rw [Lexeme.leaf, Tree.bare]; rfl

theorem literalLexeme_ne_symbol (v : Literal) (x : String) : literalLexeme v ≠ .symbol x := by
  unfold literalLexeme
  split <;> exact fun h => by cases h

theorem Produced.bare_eq {s : Subject} (h : Produced s) : bare s.lexemes = s.bare := by
  induction h with
  | @literal v =>
    simp only [Subject.lexemes, Target.lexemes, Subject.bare, shape]
    exact bare_leaf (literalLexeme_ne_symbol v)
  | name | this => simp only [Subject.bare, shape, Tree.bare]; rfl
  | field _ _ ih =>
    simp only [Subject.lexemes, Subject.bare] at ih ⊢
    rw [Target.lexemes, bare_append, ih, shape, Tree.bare]
    rfl
  | unary op _ ih =>
    simp only [Subject.lexemes, Subject.bare] at ih ⊢
    rw [Target.lexemes, bare_cons _ (turn_leadLexeme op), ih, shape, Tree.bare]
  | binary hop _ _ ihl ihr =>
    simp only [Subject.lexemes, Subject.bare] at ihl ihr ⊢
    rw [Target.lexemes, bare_group, bare_append, bare_cons _ (turn_joinLexeme hop), ihl, ihr, shape,
      Tree.bare]
  | range _ _ iha ihb =>
    simp only [Subject.lexemes, Subject.bare] at iha ihb ⊢
    have hcomma : ∀ ls, bare (.symbol "," :: ls) = .symbol "," :: bare ls := fun ls => bare_cons ls rfl
    rw [Target.lexemes, bare_append, bare_group, bare_append, hcomma, bare_append, iha, ihb, shape]
    simp only [Tree.bare, bareItems]
    rfl
  | list _ ih =>
    simp only [Subject.lexemes, Subject.bare] at ih ⊢
    rw [Target.lexemes, bare_brackets, ih, shape, Tree.bare]
  | index _ _ iht ihi =>
    simp only [Subject.lexemes, Subject.bare] at iht ihi ⊢
    rw [Target.lexemes, bare_append, bare_brackets, iht, ihi, shape, Tree.bare]
  | @call c es _ _ ihc ihes =>
    simp only [Subject.lexemes, Subject.bare] at ihc ihes ⊢
    rw [Target.lexemes, bare_append, bare_group, ihes, shape, Tree.bare]
    cases alias? c with
    | some name => simp only [Tree.bare]; rfl
    | none => simp only [ihc]
  | nothing => simp only [Subject.bare, shapes, bareItems]; rfl
  | @more e es _ _ ihe ihes =>
    simp only [Subject.lexemes, Subject.bare] at ihe ihes ⊢
    cases es with
    | nil => simp only [itemLexemes, shapes, bareItems, ihe]
    | cons e' es =>
      rw [itemLexemes_cons_cons, bare_append, bare_cons _ rfl, ihe, ihes]
      simp only [shapes, bareItems]

/-! ## Grouped expressions are spelled as they are meant -/

def Subject.grouped : Subject → Bool
  | .one e => Target.grouped e
  | .all es => groupedAll es

def Subject.form : Subject → Form
  | .one e => .tree (strength e) (shape e)
  | .all es => .items (shapes es)

theorem strength_unary (op : UnaryOp) (e : Expr) : strength (.unary op e) = leadRank op := by
  cases op <;> rfl

theorem spells_literal {v : Literal} (h : Unsigned v) :
    Spells (.tree 9 (literalLexeme v).leaf) [literalLexeme v] := by
  cases h with
  | int | finite => exact .number
  | infinite | nan => exact .word rfl
  | text => exact .quoted
  | truth b => cases b <;> exact .word rfl

theorem Produced.spells {s : Subject} (h : Produced s) (hg : s.grouped = true) :
    Spells s.form s.lexemes := by
  induction h with
  | literal hv => rw [Subject.form, shape]; exact spells_literal hv
  | name => rw [Subject.form, shape]; exact .word hg
  | this => rw [Subject.form, shape]; exact .word rfl
  | field _ _ ih =>
    simp only [Subject.grouped, Target.grouped, Bool.and_eq_true, decide_eq_true_eq] at hg ih
    obtain ⟨⟨ht, hk⟩, hx⟩ := hg
    rw [Subject.form, shape]
    exact .field hk (ih ht) hx
  | unary op _ ih =>
    simp only [Subject.grouped, Target.grouped, Bool.and_eq_true, decide_eq_true_eq] at hg ih
    obtain ⟨he, hk⟩ := hg
    rw [Subject.form, shape, strength_unary]
    exact .lead (mem_leads op) hk (ih he)
  | binary hop _ _ ihl ihr =>
    simp only [Subject.grouped, Target.grouped, Bool.and_eq_true, decide_eq_true_eq] at hg ihl ihr
    obtain ⟨⟨⟨hl, hr⟩, hkl⟩, hkr⟩ := hg
    rw [Subject.form, shape]
    exact .group (.join (mem_joins hop) hkl (ihl hl) hkr (ihr hr))
  | range _ _ iha ihb =>
    simp only [Subject.grouped, Target.grouped, Bool.and_eq_true, decide_eq_true_eq] at hg iha ihb
    obtain ⟨⟨ha, hb⟩, hk⟩ := hg
    rw [Subject.form, shape]
    have hplus : (Lexeme.symbol "+", 5, BinaryOp.add) ∈ joins := by decide
    have hsum := Spells.join hplus hk (ihb hb) (by decide : 5 < 9) (@Spells.number "1")
    exact .call (by decide) (.word rfl) (.more (iha ha) (.one hsum))
  | list _ ih =>
    rw [Subject.form, shape]
    exact .list (ih hg)
  | index _ _ iht ihi =>
    simp only [Subject.grouped, Target.grouped, Bool.and_eq_true, decide_eq_true_eq] at hg iht ihi
    obtain ⟨⟨ht, hk⟩, hi⟩ := hg
    rw [Subject.form, shape]
    exact .index hk (iht ht) (ihi hi)
  | @call c es _ _ ihc ihes =>
    simp only [Subject.grouped, Target.grouped, Bool.and_eq_true] at hg ihc ihes
    obtain ⟨hc, hes⟩ := hg
    rw [Subject.form, Subject.lexemes, shape, Target.lexemes]
    cases halias : alias? c with
    | some name =>
      rw [halias] at hc
      exact .call (by decide) (.word hc) (ihes hes)
    | none =>
      simp only [halias, Bool.and_eq_true, decide_eq_true_eq] at hc
      exact .call hc.2 (ihc hc.1) (ihes hes)
  | nothing => exact .nothing
  | @more e es _ _ ihe ihes =>
    simp only [Subject.grouped, groupedAll, Bool.and_eq_true] at hg ihe ihes
    obtain ⟨he, hes⟩ := hg
    rw [Subject.form, Subject.lexemes]
    cases es with
    | nil =>
      simp only [shapes, itemLexemes]
      exact .one (ihe he)
    | cons e' es =>
      rw [itemLexemes_cons_cons, shapes, shapes]
      exact .more (ihe he) (ihes hes)

/-! ## Only grouped expressions are -/

def InGroup (t : Tree) (ls : List Lexeme) : Prop :=
  ∃ k us, ls = .symbol "(" :: (us ++ [.symbol ")"]) ∧ Spells (.tree k t) us

theorem Spells.word_inv {x : String} (h : Spells (.tree k (.word x)) ls) :
    InGroup (.word x) ls ∨ isAtomWord x = true := by
  cases h with
  | word hx => exact .inr hx
  | group ht => exact .inl ⟨_, _, rfl, ht⟩

theorem Spells.field_inv {x : String} (h : Spells (.tree k (.field t x)) ls) :
    InGroup (.field t x) ls ∨
      ∃ j us, ls = us ++ [.symbol ".", .word x] ∧ 8 ≤ j ∧ Spells (.tree j t) us ∧ isFieldWord x = true := by
  cases h with
  | field hj ht hx => exact .inr ⟨_, _, rfl, hj, ht, hx⟩
  | group ht => exact .inl ⟨_, _, rfl, ht⟩

theorem Spells.call_inv (h : Spells (.tree k (.call t ts)) ls) : InGroup (.call t ts) ls ∨
      ∃ j us vs, ls = us ++ .symbol "(" :: (vs ++ [.symbol ")"]) ∧ 8 ≤ j ∧ Spells (.tree j t) us ∧
        Spells (.items ts) vs := by
  cases h with
  | call hj ht hts => exact .inr ⟨_, _, _, rfl, hj, ht, hts⟩
  | group ht => exact .inl ⟨_, _, rfl, ht⟩

theorem Spells.index_inv {i : Tree} (h : Spells (.tree k (.index t i)) ls) :
    InGroup (.index t i) ls ∨
      ∃ j j' us vs, ls = us ++ .symbol "[" :: (vs ++ [.symbol "]"]) ∧ 8 ≤ j ∧
        Spells (.tree j t) us ∧ Spells (.tree j' i) vs := by
  cases h with
  | index hj ht hi => exact .inr ⟨_, _, _, _, rfl, hj, ht, hi⟩
  | group ht => exact .inl ⟨_, _, rfl, ht⟩

theorem Spells.list_inv (h : Spells (.tree k (.list ts)) ls) : InGroup (.list ts) ls ∨
      ∃ us, ls = .symbol "[" :: (us ++ [.symbol "]"]) ∧ Spells (.items ts) us := by
  cases h with
  | list hts => exact .inr ⟨_, rfl, hts⟩
  | group ht => exact .inl ⟨_, _, rfl, ht⟩

theorem Spells.unary_inv {op : UnaryOp} (h : Spells (.tree k (.unary op t)) ls) :
    InGroup (.unary op t) ls ∨
      ∃ j us, ls = leadLexeme op :: us ∧ leadRank op ≤ j ∧ Spells (.tree j t) us := by
  have hrank : ∀ x ∈ leads, x.2.1 = leadRank x.2.2 := by decide
  cases h with
  | lead hm hj ht =>
    have hlexeme := eq_leadLexeme _ hm
    have hk := hrank _ hm
    simp only at hlexeme hk
    subst hlexeme hk
    exact .inr ⟨_, _, rfl, hj, ht⟩
  | group ht => exact .inl ⟨_, _, rfl, ht⟩

theorem Spells.binary_inv {a b : Tree} (h : Spells (.tree k (.binary a op b)) ls) :
    InGroup (.binary a op b) ls ∨
      ∃ j j' us vs, ls = us ++ joinLexeme op :: vs ∧ leftRank (joinRank op) ≤ j ∧
        Spells (.tree j a) us ∧ joinRank op < j' ∧ Spells (.tree j' b) vs := by
  have hrank : ∀ x ∈ joins, x.2.1 = joinRank x.2.2 := by decide
  cases h with
  | join hm hj ha hj' hb =>
    have hlexeme := eq_joinLexeme _ hm
    have hk := hrank _ hm
    simp only at hlexeme hk
    subst hlexeme hk
    exact .inr ⟨_, _, _, _, rfl, hj, ha, hj', hb⟩
  | group ht => exact .inl ⟨_, _, rfl, ht⟩

theorem InGroup.getLast? (h : InGroup t ls) :
    ls.getLast? = some (.symbol ")") := by
  obtain ⟨k, us, rfl, -⟩ := h
  exact getLast?_cons_concat _ _ _

theorem InGroup.head? (h : InGroup t ls) :
    ls.head? = some (.symbol "(") := by
  obtain ⟨k, us, rfl, -⟩ := h
  rfl

theorem InGroup.ne_append {m : Lexeme} (hls : Balanced ls) (hne : ls ≠ []) :
    ¬InGroup t (ls ++ m :: ms) := by
  rintro ⟨k, us, heq, hus⟩
  exact append_ne_enclosed hus.balanced rfl hls.closed hne heq

theorem append_cons_inj_of_bare {ls' ms' : List Lexeme} {m : Lexeme} (hm : turn m = 0)
    (hls : bare ls = bare ls') (h : ls ++ m :: ms = ls' ++ m :: ms') : ls = ls' ∧ ms = ms' := by
  obtain ⟨a, rfl, -⟩ | ⟨rfl, -, rfl⟩ | ⟨a, rfl, -⟩ := append_cons_eq_append_cons h
  · rw [bare_append, bare_cons _ hm] at hls
    exact absurd hls (by simp)
  · exact ⟨rfl, rfl⟩
  · rw [bare_append, bare_cons _ hm] at hls
    exact absurd hls (by simp)

theorem Spells.items_singleton_inv (h : Spells (.items [t]) ls) :
    ∃ k, Spells (.tree k t) ls := by
  obtain ⟨hnil, -⟩ | ⟨k, _, hone, hk⟩ | ⟨_, _, _, _, _, _, hts, -⟩ := h.items_cases
  · cases hnil
  · cases hone
    exact ⟨k, hk⟩
  · cases hts

theorem Spells.items_cons_inv {u : Tree} (hls : bare ls = t.bare)
    (h : Spells (.items (t :: u :: ts)) (ls ++ .symbol "," :: ms)) :
    (∃ k, Spells (.tree k t) ls) ∧ Spells (.items (u :: ts)) ms := by
  obtain ⟨hnil, -⟩ | ⟨_, _, hone, -⟩ | ⟨k, _, _, _, us, vs, hts, heq, hus, hvs⟩ := h.items_cases
  · cases hnil
  · cases hone
  · cases hts
    obtain ⟨rfl, rfl⟩ := append_cons_inj_of_bare rfl (hls.trans hus.bare_eq.symm) heq
    exact ⟨⟨k, hus⟩, hvs⟩

def Subject.Spelled : Subject → Prop
  | .one e => ∃ k, Spells (.tree k (shape e)) (Target.lexemes e)
  | .all es => Spells (.items (shapes es)) (itemLexemes es)

theorem Produced.grouped_and_rank_eq (h : Produced (.one e))
    (ih : (Subject.one e).Spelled → grouped e = true) (hk : Spells (.tree k (shape e)) (lexemes e)) :
    grouped e = true ∧ k = strength e := by
  have hg := ih ⟨k, hk⟩
  exact ⟨hg, (h.spells hg).rank_eq hk⟩

theorem grouped_binary_of_spelled {l r : Expr} (hop : ∀ text, op ≠ .other text)
    (hl : Produced (.one l)) (hr : Produced (.one r))
    (ihl : (Subject.one l).Spelled → grouped l = true)
    (ihr : (Subject.one r).Spelled → grouped r = true) (hs : (Subject.one (.binary l op r)).Spelled) :
    grouped (.binary l op r) = true := by
  obtain ⟨k, hk⟩ := hs
  have hturn := turn_joinLexeme hop
  have hinner : Balanced (lexemes l ++ joinLexeme op :: lexemes r) :=
    hl.balanced.append ((balanced_singleton hturn).append hr.balanced)
  -- The outer parentheses are a group, and what stands in them is not one again.
  obtain ⟨k', us, heq, hus⟩ | ⟨j, j', us, vs, heq, -, hus, -, -⟩ := hk.binary_inv
  · obtain rfl := (append_inj' (cons.inj heq).2 rfl).1
    obtain hgroup | ⟨j, j', us, vs, heq, hj, hus, hj', hvs⟩ := hus.binary_inv
    · exact absurd hgroup (InGroup.ne_append hl.balanced hl.lexemes_ne_nil)
    · obtain ⟨rfl, rfl⟩ := append_cons_inj_of_bare hturn (hl.bare_eq.trans hus.bare_eq.symm) heq
      obtain ⟨hgl, rfl⟩ := hl.grouped_and_rank_eq ihl hus
      obtain ⟨hgr, rfl⟩ := hr.grouped_and_rank_eq ihr hvs
      simp only [Target.grouped, Bool.and_eq_true, decide_eq_true_eq]
      exact ⟨⟨⟨hgl, hgr⟩, hj⟩, hj'⟩
  · exact absurd heq.symm (append_ne_enclosed hinner rfl hus.balanced.closed hus.ne_nil)

theorem grouped_of_spells_sum (h : Produced (.one e))
    (ih : (Subject.one e).Spelled → grouped e = true)
    (hk : Spells (.tree k (.binary (shape e) .add (.number "1")))
      (lexemes e ++ [.symbol "+", .number "1"])) : grouped e = true ∧ 5 ≤ strength e := by
  obtain hgroup | ⟨j, j', us, vs, heq, hj, hus, -, -⟩ := hk.binary_inv
  · exact absurd hgroup (InGroup.ne_append h.balanced h.lexemes_ne_nil)
  · obtain ⟨rfl, -⟩ := append_cons_inj_of_bare rfl (h.bare_eq.trans hus.bare_eq.symm) heq
    obtain ⟨hg, rfl⟩ := h.grouped_and_rank_eq ih hus
    exact ⟨hg, hj⟩

theorem grouped_range_of_spelled {a b : Expr} (ha : Produced (.one a)) (hb : Produced (.one b))
    (iha : (Subject.one a).Spelled → grouped a = true)
    (ihb : (Subject.one b).Spelled → grouped b = true)
    (hs : (Subject.one (.range a b)).Spelled) : grouped (.range a b) = true := by
  obtain ⟨k, hk⟩ := hs
  obtain hgroup | ⟨j, us, vs, heq, -, hus, hvs⟩ := hk.call_inv
  · exact absurd hgroup (InGroup.ne_append (balanced_singleton rfl) (by simp))
  · obtain ⟨rfl, rfl⟩ :=
      enclosed_inj (ha.balanced.rangeItems hb.balanced) hvs.balanced rfl rfl heq
    obtain ⟨hfirst, hlast⟩ := hvs.items_cons_inv ha.bare_eq
    obtain ⟨i, hsum⟩ := hlast.items_singleton_inv
    obtain ⟨hgb, hkb⟩ := grouped_of_spells_sum hb ihb hsum
    simp only [Target.grouped, Bool.and_eq_true, decide_eq_true_eq]
    exact ⟨⟨iha hfirst, hgb⟩, hkb⟩

theorem grouped_call_of_spelled {c : Expr} {es : List Expr} (hc : Produced (.one c))
    (hes : Produced (.all es)) (ihc : (Subject.one c).Spelled → grouped c = true)
    (ihes : (Subject.all es).Spelled → groupedAll es = true)
    (hs : (Subject.one (.call c es)).Spelled) : grouped (.call c es) = true := by
  obtain ⟨k, hk⟩ := hs
  rw [shape, Target.lexemes] at hk
  simp only [Target.grouped, Bool.and_eq_true]
  cases halias : alias? c with
  | some name =>
    simp only [halias] at hk
    obtain hgroup | ⟨j, us, vs, heq, -, hus, hvs⟩ := hk.call_inv
    · exact absurd hgroup (InGroup.ne_append (balanced_singleton rfl) (by simp))
    · obtain ⟨rfl, rfl⟩ := enclosed_inj hes.balanced hvs.balanced rfl rfl heq
      obtain hgroup | hx := hus.word_inv
      · exact absurd hgroup.head? (by simp)
      · exact ⟨hx, ihes hvs⟩
  | none =>
    simp only [halias] at hk
    obtain hgroup | ⟨j, us, vs, heq, hj, hus, hvs⟩ := hk.call_inv
    · exact absurd hgroup (InGroup.ne_append hc.balanced hc.lexemes_ne_nil)
    · obtain ⟨rfl, rfl⟩ := enclosed_inj hes.balanced hvs.balanced rfl rfl heq
      obtain ⟨hgc, rfl⟩ := hc.grouped_and_rank_eq ihc hus
      simp only [Bool.and_eq_true, decide_eq_true_eq]
      exact ⟨⟨hgc, hj⟩, ihes hvs⟩

theorem Produced.grouped_of_spelled {s : Subject} (h : Produced s) (hs : s.Spelled) :
    s.grouped = true := by
  induction h with
  | literal | this | nothing => rfl
  | name =>
    obtain ⟨k, hk⟩ := hs
    obtain hgroup | hx := hk.word_inv
    · exact absurd hgroup.head? (by simp [Target.lexemes])
    · exact hx
  | @field t x ht _ ih =>
    obtain ⟨k, hk⟩ := hs
    rw [Target.lexemes] at hk
    obtain hgroup | ⟨j, us, heq, hj, hus, hx⟩ := hk.field_inv
    · exact absurd hgroup.getLast? (by simp)
    · obtain ⟨rfl, -⟩ := append_inj' heq rfl
      obtain ⟨hg, rfl⟩ := ht.grouped_and_rank_eq ih hus
      simp only [Subject.grouped, Target.grouped, Bool.and_eq_true, decide_eq_true_eq]
      exact ⟨⟨hg, hj⟩, hx⟩
  | @unary e op he ih =>
    obtain ⟨k, hk⟩ := hs
    rw [Target.lexemes] at hk
    obtain hgroup | ⟨j, us, heq, hj, hus⟩ := hk.unary_inv
    · exact absurd hgroup.head? (by cases op <;> simp [leadLexeme])
    · obtain ⟨-, rfl⟩ := cons.inj heq
      obtain ⟨hg, rfl⟩ := he.grouped_and_rank_eq ih hus
      simp only [Subject.grouped, Target.grouped, Bool.and_eq_true, decide_eq_true_eq]
      exact ⟨hg, hj⟩
  | binary hop hl hr ihl ihr => exact grouped_binary_of_spelled hop hl hr ihl ihr hs
  | range ha hb iha ihb => exact grouped_range_of_spelled ha hb iha ihb hs
  | list hes ih =>
    obtain ⟨k, hk⟩ := hs
    rw [Target.lexemes] at hk
    obtain hgroup | ⟨us, heq, hus⟩ := hk.list_inv
    · exact absurd hgroup.head? (by simp)
    · obtain rfl := (append_inj' (cons.inj heq).2 rfl).1
      exact ih hus
  | @index t i ht hi iht ihi =>
    obtain ⟨k, hk⟩ := hs
    obtain hgroup | ⟨j, j', us, vs, heq, hj, hus, hvs⟩ := hk.index_inv
    · exact absurd hgroup (InGroup.ne_append ht.balanced ht.lexemes_ne_nil)
    · obtain ⟨rfl, rfl⟩ := enclosed_inj hi.balanced hvs.balanced rfl rfl heq
      obtain ⟨hgt, rfl⟩ := ht.grouped_and_rank_eq iht hus
      simp only [Subject.grouped, Target.grouped, Bool.and_eq_true, decide_eq_true_eq]
      exact ⟨⟨hgt, hj⟩, ihi ⟨j', hvs⟩⟩
  | call hc hes ihc ihes => exact grouped_call_of_spelled hc hes ihc ihes hs
  | @more e es he hes ihe ihes =>
    simp only [Subject.grouped, groupedAll, Bool.and_eq_true, Subject.Spelled] at hs ihe ihes ⊢
    cases es with
    | nil =>
      exact ⟨ihe hs.items_singleton_inv, rfl⟩
    | cons e' es =>
      obtain ⟨hfirst, hothers⟩ := hs.items_cons_inv he.bare_eq
      exact ⟨ihe hfirst, ihes hothers⟩

/-- **Grouping.** The lexemes that the emitter writes spell the tree it means exactly if the expression
is grouped. -/
theorem Produced.spells_iff (h : Produced (.one e)) :
    (∃ k, Spells (.tree k (shape e)) (lexemes e)) ↔ grouped e = true :=
  ⟨h.grouped_of_spelled, fun hg => ⟨strength e, h.spells hg⟩⟩

end ScriptWorkbench.Target
