/-
The grammar of scripts, as a relation between trees and stretches of tokens.

Expressions are stratified: six levels of binary operators that group to the left, then prefix operators, then
calls, attributes and indices, then the smallest expressions. The rules for operators are left recursive, as
such a grammar is written on paper. No function of the parser appears in the rules, apart from the reading of
a number, which gives a literal its value.
-/
import ScriptWorkbench.Ast.Parser

namespace ScriptWorkbench.Grammar

open Ast Token List

variable {rest us : List Token} {j k : Nat} {kind : Kind} {op : BinaryOp} {t : Token}

/-! ## Operators -/

/-- The binary operators: the level of each, counted from the loosest, and the kind of token that
spells it. -/
inductive Operator : Nat → Kind → BinaryOp → Prop where
  | or : Operator 0 .orWord .or
  | and : Operator 1 .andWord .and
  | equal : Operator 2 .equalEqual .equal
  | notEqual : Operator 2 .bangEqual .notEqual
  | less : Operator 3 .less .less
  | lessEqual : Operator 3 .lessEqual .lessEqual
  | greater : Operator 3 .greater .greater
  | greaterEqual : Operator 3 .greaterEqual .greaterEqual
  | add : Operator 4 .plus .add
  | subtract : Operator 4 .minus .subtract
  | multiply : Operator 5 .star .multiply
  | divide : Operator 5 .slash .divide

def tightest : Nat := 6

inductive PrefixOperator : Kind → UnaryOp → Prop where
  | not : PrefixOperator .notWord .not
  | negate : PrefixOperator .minus .negate

/-- The tokens that extend a finished operand: they open a call, an attribute or an index. -/
inductive Trailer : Kind → Prop where
  | call : Trailer .leftParen
  | field : Trailer .dot
  | index : Trailer .leftBracket

theorem Operator.lt_tightest (h : Operator k kind op) :
    k < tightest := by
  cases h <;> decide

theorem Operator.unique {op' : BinaryOp} (h : Operator j kind op) (h' : Operator k kind op') :
    j = k ∧ op = op' := by
  cases h <;> cases h' <;> exact ⟨rfl, rfl⟩

theorem Operator.not_trailer (h : Operator k kind op) :
    ¬Trailer kind := by
  intro ht
  cases h <;> cases ht

/-! ## Expressions -/

/-- What a stretch of tokens can be read as inside an expression. -/
inductive Phrase where
  | level (k : Nat) (e : Expr)
  | signed (e : Expr)
  | applied (e : Expr)
  | primary (e : Expr)
  | items (es : List Expr)

/-- **The expression grammar.** The tokens derive the phrase. -/
inductive Derives : Phrase → List Token → Prop where
  | signed {e : Expr} {us : List Token} : Derives (.signed e) us → Derives (.level tightest e) us
  | tighter {k : Nat} {e : Expr} {us : List Token} :
      k < tightest → Derives (.level (k + 1) e) us → Derives (.level k e) us
  | operator {k : Nat} {l r : Expr} {op : BinaryOp} {t : Token} {us vs : List Token} :
      Derives (.level k l) us → Operator k t.kind op → Derives (.level (k + 1) r) vs →
      Derives (.level k (.binary l op r)) (us ++ t :: vs)
  | sign {e : Expr} {op : UnaryOp} {t : Token} {us : List Token} :
      PrefixOperator t.kind op → Derives (.signed e) us →
      Derives (.signed (.unary op e)) (t :: us)
  | applied {e : Expr} {us : List Token} : Derives (.applied e) us → Derives (.signed e) us
  | primary {e : Expr} {us : List Token} : Derives (.primary e) us → Derives (.applied e) us
  | callNothing {e : Expr} {t u : Token} {us : List Token} :
      Derives (.applied e) us → t.kind = .leftParen → u.kind = .rightParen →
      Derives (.applied (.call e [])) (us ++ [t, u])
  | call {e : Expr} {es : List Expr} {t u : Token} {us vs : List Token} :
      Derives (.applied e) us → t.kind = .leftParen → Derives (.items es) vs →
      u.kind = .rightParen → Derives (.applied (.call e es)) (us ++ t :: (vs ++ [u]))
  | field {e : Expr} {t u : Token} {us : List Token} :
      Derives (.applied e) us → t.kind = .dot → u.kind = .identifier →
      Derives (.applied (.attribute e u.value)) (us ++ [t, u])
  | index {e i : Expr} {t u : Token} {us vs : List Token} :
      Derives (.applied e) us → t.kind = .leftBracket → Derives (.level 0 i) vs →
      u.kind = .rightBracket → Derives (.applied (.index e i)) (us ++ t :: (vs ++ [u]))
  | number {v : Literal} {t : Token} :
      t.kind = .number → Parser.numberLiteral t.value = .ok v →
      Derives (.primary (.literal v)) [t]
  | text {t : Token} : t.kind = .text → Derives (.primary (.literal (.text t.value))) [t]
  | true {t : Token} : t.kind = .trueWord → Derives (.primary (.literal (.truth Bool.true))) [t]
  | false {t : Token} : t.kind = .falseWord → Derives (.primary (.literal (.truth Bool.false))) [t]
  | name {t : Token} : t.kind = .identifier → Derives (.primary (.name t.value)) [t]
  | this {t : Token} : t.kind = .thisWord → Derives (.primary .this) [t]
  | group {e : Expr} {t u : Token} {us : List Token} :
      t.kind = .leftParen → Derives (.level 0 e) us → u.kind = .rightParen →
      Derives (.primary e) (t :: (us ++ [u]))
  | listNothing {t u : Token} :
      t.kind = .leftBracket → u.kind = .rightBracket → Derives (.primary (.list [])) [t, u]
  | list {es : List Expr} {t u : Token} {us : List Token} :
      t.kind = .leftBracket → Derives (.items es) us → u.kind = .rightBracket →
      Derives (.primary (.list es)) (t :: (us ++ [u]))
  | one {e : Expr} {us : List Token} : Derives (.level 0 e) us → Derives (.items [e]) us
  | more {e : Expr} {es : List Expr} {t : Token} {us vs : List Token} :
      Derives (.level 0 e) us → t.kind = .comma → Derives (.items es) vs →
      Derives (.items (e :: es)) (us ++ t :: vs)

/-- A token of the kind continues an expression of level `k`: it is an operator of that level or a
tighter one, or it extends the last operand. -/
def Continues (k : Nat) (kind : Kind) : Prop := (∃ j op, k ≤ j ∧ Operator j kind op) ∨ Trailer kind

def Stops (k : Nat) (rest : List Token) : Prop := ∀ t ∈ rest.head?, ¬Continues k t.kind

abbrev Expression (e : Expr) (us : List Token) : Prop := Derives (.level 0 e) us

/-- What a loop may run over: an expression, or a range between two of them. -/
inductive Source : Expr → List Token → Prop where
  | value {e : Expr} {us : List Token} : Expression e us → Source e us
  | range {first last : Expr} {t : Token} {us vs : List Token} :
      Expression first us → t.kind = .dotDot → Expression last vs →
      Source (.range first last) (us ++ t :: vs)

/-! ## Statements -/

/-- What a stretch of tokens can be read as inside a block. -/
inductive Part where
  | statement (s : Stmt)
  | otherwise (b : Option Body)
  | block (ss : List Stmt)
  | closing (ss : List Stmt)

/-- The name of the error after `catch`, which may be absent. -/
inductive Caught : Option String → List Token → Prop where
  | nothing : Caught none []
  | error {t : Token} : t.kind = .identifier → Caught (some t.value) [t]

/-- **The statement grammar.** The tokens form the part. After `else if` any statement may stand. -/
inductive Forms : Part → List Token → Prop where
  | letVar {e : Expr} {t name eq semi : Token} {us : List Token} :
      t.kind = .letWord → name.kind = .identifier → eq.kind = .equal → Expression e us →
      semi.kind = .semicolon →
      Forms (.statement (.letVar name.value e)) (t :: name :: eq :: (us ++ [semi]))
  | assign {e : Expr} {name eq semi : Token} {us : List Token} :
      name.kind = .identifier → eq.kind = .equal → Expression e us → semi.kind = .semicolon →
      Forms (.statement (.assign name.value e)) (name :: eq :: (us ++ [semi]))
  | returnNothing {t semi : Token} :
      t.kind = .returnWord → semi.kind = .semicolon → Forms (.statement (.result none)) [t, semi]
  | returnValue {e : Expr} {t semi : Token} {us : List Token} :
      t.kind = .returnWord → Expression e us → semi.kind = .semicolon →
      Forms (.statement (.result (some e))) (t :: (us ++ [semi]))
  | cond {e : Expr} {ss : List Stmt} {b : Option Body} {t : Token} {us vs ws : List Token} :
      t.kind = .ifWord → Expression e us → Forms (.block ss) vs → Forms (.otherwise b) ws →
      Forms (.statement (.cond e (.block ss) b)) (t :: (us ++ (vs ++ ws)))
  | forEach {e : Expr} {ss : List Stmt} {t name within : Token} {us vs : List Token} :
      t.kind = .forWord → name.kind = .identifier → within.kind = .inWord → Source e us →
      Forms (.block ss) vs →
      Forms (.statement (.forEach name.value e (.block ss))) (t :: name :: within :: (us ++ vs))
  | loop {e : Expr} {ss : List Stmt} {t : Token} {us vs : List Token} :
      t.kind = .whileWord → Expression e us → Forms (.block ss) vs →
      Forms (.statement (.loop e (.block ss))) (t :: (us ++ vs))
  | guarded {ss ss' : List Stmt} {name : Option String} {t u : Token} {us vs ws : List Token} :
      t.kind = .tryWord → Forms (.block ss) us → u.kind = .catchWord → Caught name vs →
      Forms (.block ss') ws →
      Forms (.statement (.guarded (.block ss) name (.block ss'))) (t :: (us ++ u :: (vs ++ ws)))
  | expr {e : Expr} {semi : Token} {us : List Token} :
      Expression e us → semi.kind = .semicolon → Forms (.statement (.expr e)) (us ++ [semi])
  | nothing : Forms (.otherwise none) []
  | elseBlock {ss : List Stmt} {t : Token} {us : List Token} :
      t.kind = .elseWord → Forms (.block ss) us → Forms (.otherwise (some (.block ss))) (t :: us)
  | elseIf {s : Stmt} {t u : Token} {us : List Token} :
      t.kind = .elseWord → u.kind = .ifWord → Forms (.statement s) us →
      Forms (.otherwise (some (.single s))) (t :: u :: us)
  | block {ss : List Stmt} {t : Token} {us : List Token} :
      t.kind = .leftBrace → Forms (.closing ss) us → Forms (.block ss) (t :: us)
  | close {t : Token} : t.kind = .rightBrace → Forms (.closing []) [t]
  | cons {s : Stmt} {ss : List Stmt} {us vs : List Token} :
      Forms (.statement s) us → Forms (.closing ss) vs → Forms (.closing (s :: ss)) (us ++ vs)

abbrev Statement (s : Stmt) (us : List Token) : Prop := Forms (.statement s) us

abbrev Block (ss : List Stmt) (us : List Token) : Prop := Forms (.block ss) us

/-! ## Programs -/

inductive Names : List String → List Token → Prop where
  | one {t : Token} : t.kind = .identifier → Names [t.value] [t]
  | more {ns : List String} {t u : Token} {us : List Token} :
      t.kind = .identifier → u.kind = .comma → Names ns us → Names (t.value :: ns) (t :: u :: us)

inductive Parameters : List String → List Token → Prop where
  | nothing : Parameters [] []
  | names {ns : List String} {us : List Token} : Names ns us → Parameters ns us

inductive Parent : Option String → List Token → Prop where
  | nothing : Parent none []
  | extending {t u : Token} : t.kind = .extendsWord → u.kind = .identifier → Parent (some u.value) [t, u]

inductive Item where
  | function (f : Function)
  | statement (s : Stmt)
  | declaration (c : ClassDecl)

/-- **The grammar of items.** A main block is a function named `main`. -/
inductive Makes : Item → List Token → Prop where
  | function {ns : List String} {ss : List Stmt} {t name l r : Token} {us vs : List Token} :
      t.kind = .funcWord → name.kind = .identifier → l.kind = .leftParen → Parameters ns us →
      r.kind = .rightParen → Block ss vs →
      Makes (.function ⟨name.value, ns, .block ss⟩) (t :: name :: l :: (us ++ r :: vs))
  | mainBlock {ss : List Stmt} {t : Token} {us : List Token} :
      t.kind = .mainWord → Block ss us → Makes (.function ⟨"main", [], .block ss⟩) (t :: us)
  | declaration {ss : List Stmt} {parent : Option String} {t name : Token} {us vs : List Token} :
      t.kind = .classWord → name.kind = .identifier → Parent parent us → Block ss vs →
      Makes (.declaration ⟨name.value, parent, .block ss⟩) (t :: name :: (us ++ vs))
  | statement {s : Stmt} {us : List Token} : Statement s us → Makes (.statement s) us

def Item.addTo (p : Program) : Item → Program
  | .function f => { p with functions := f :: p.functions }
  | .statement s => { p with statements := s :: p.statements }
  | .declaration c => { p with classes := c :: p.classes }

/-- The program that consists of the given items: functions, statements and classes each keep their
order. -/
def assemble (items : List Item) : Program := items.foldr (fun item p => item.addTo p) ⟨[], [], []⟩

/-- An item together with the tokens it is made of. -/
structure Piece where
  item : Item
  tokens : List Token
  makes : Makes item tokens

def Piece.join (pieces : List Piece) : List Token := (pieces.map Piece.tokens).flatten

def Piece.program (pieces : List Piece) : Program := assemble (pieces.map Piece.item)

/-! ## Where an expression stops -/

@[simp] theorem stops_nil (k : Nat) : Stops k [] := by
  intro t ht
  cases ht

@[simp] theorem stops_cons :
    Stops k (t :: rest) ↔ ¬Continues k t.kind := by
  simp [Stops]

theorem Continues.mono (hjk : j ≤ k) (h : Continues k kind) :
    Continues j kind := by
  obtain ⟨i, op, hi, hop⟩ | ht := h
  · exact .inl ⟨i, op, Nat.le_trans hjk hi, hop⟩
  · exact .inr ht

theorem Stops.mono (hjk : j ≤ k) (h : Stops j rest) :
    Stops k rest :=
  fun t ht hc => h t ht (hc.mono hjk)

theorem Stops.of_succ (h : Stops (k + 1) rest) (hop : ∀ t ∈ rest.head?, ∀ op, ¬Operator k t.kind op) :
    Stops k rest := by
  intro t ht hc
  obtain ⟨j, op, hj, hjop⟩ | htr := hc
  · obtain rfl | hlt := Nat.eq_or_lt_of_le hj
    · exact hop t ht op hjop
    · exact h t ht (.inl ⟨j, op, hlt, hjop⟩)
  · exact h t ht (.inr htr)

theorem Operator.stops (h : Operator k t.kind op) : Stops (k + 1) (t :: rest) := by
  rw [stops_cons]
  rintro (⟨j, op', hj, hop⟩ | ht)
  · have := (h.unique hop).1
    omega
  · exact h.not_trailer ht

/-! ## What every derivation shares -/

def NoEnd (us : List Token) : Prop := ∀ t ∈ us, t.kind ≠ .endOfInput

@[simp] theorem noEnd_nil : NoEnd [] := by
  intro t ht
  cases ht

@[simp] theorem noEnd_cons :
    NoEnd (t :: us) ↔ t.kind ≠ .endOfInput ∧ NoEnd us :=
  forall_mem_cons

@[simp] theorem noEnd_append {vs : List Token} : NoEnd (us ++ vs) ↔ NoEnd us ∧ NoEnd vs :=
  forall_mem_append

theorem Derives.ne_nil {ph : Phrase} (h : Derives ph us) : us ≠ [] := by induction h <;> simp_all

theorem Derives.length_pos {ph : Phrase} (h : Derives ph us) : 0 < us.length :=
  length_pos_iff.2 h.ne_nil

inductive StartsOperand : Kind → Prop where
  | number : StartsOperand .number
  | text : StartsOperand .text
  | true : StartsOperand .trueWord
  | false : StartsOperand .falseWord
  | name : StartsOperand .identifier
  | this : StartsOperand .thisWord
  | group : StartsOperand .leftParen
  | list : StartsOperand .leftBracket

inductive StartsExpression : Kind → Prop where
  | operand {kind : Kind} : StartsOperand kind → StartsExpression kind
  | sign {kind : Kind} {op : UnaryOp} : PrefixOperator kind op → StartsExpression kind

def Phrase.StartsWith : Phrase → Kind → Prop
  | .applied _ | .primary _ => StartsOperand
  | .level .. | .signed _ | .items _ => StartsExpression

theorem Derives.head {ph : Phrase} (h : Derives ph us) :
    ∃ t vs, us = t :: vs ∧ ph.StartsWith t.kind := by
  induction h with
  | signed _ ih | tighter _ _ ih | primary _ ih | one _ ih => exact ih
  | operator _ _ _ ih _ | more _ _ _ ih _ | callNothing _ _ _ ih | call _ _ _ _ ih _
  | field _ _ _ ih | index _ _ _ _ ih _ =>
    obtain ⟨t, vs, rfl, ht⟩ := ih
    exact ⟨t, _, rfl, ht⟩
  | sign hop _ _ => exact ⟨_, _, rfl, .sign hop⟩
  | applied _ ih =>
    obtain ⟨t, vs, rfl, ht⟩ := ih
    exact ⟨t, vs, rfl, .operand ht⟩
  | number ht _ => exact ⟨_, _, rfl, by rw [ht]; exact .number⟩
  | text ht => exact ⟨_, _, rfl, by rw [ht]; exact .text⟩
  | true ht => exact ⟨_, _, rfl, by rw [ht]; exact .true⟩
  | false ht => exact ⟨_, _, rfl, by rw [ht]; exact .false⟩
  | name ht => exact ⟨_, _, rfl, by rw [ht]; exact .name⟩
  | this ht => exact ⟨_, _, rfl, by rw [ht]; exact .this⟩
  | group ht _ _ => exact ⟨_, _, rfl, by rw [ht]; exact .group⟩
  | listNothing ht _ | list ht _ _ => exact ⟨_, _, rfl, by rw [ht]; exact .list⟩

inductive InExpression : Kind → Prop where
  | start {kind : Kind} : StartsExpression kind → InExpression kind
  | operator {k : Nat} {kind : Kind} {op : BinaryOp} : Operator k kind op → InExpression kind
  | field : InExpression .dot
  | comma : InExpression .comma
  | closeParen : InExpression .rightParen
  | closeBracket : InExpression .rightBracket

/-- A token that may stand in an expression: its kind is one of those, and a number has a value. -/
def Usable (t : Token) : Prop :=
  InExpression t.kind ∧ (t.kind = .number → ∃ v, Parser.numberLiteral t.value = .ok v)

theorem usable_of_kind (ht : t.kind = kind) (h : InExpression kind) (hne : kind ≠ .number) :
    Usable t :=
  ⟨ht ▸ h, fun hnum => absurd (ht.symm.trans hnum) hne⟩

theorem Operator.usable (h : Operator k t.kind op) :
    Usable t := by
  refine usable_of_kind rfl (.operator h) ?_
  generalize t.kind = kind at h
  cases h <;> decide

theorem PrefixOperator.usable {op : UnaryOp} (h : PrefixOperator t.kind op) :
    Usable t := by
  refine usable_of_kind rfl (.start (.sign h)) ?_
  generalize t.kind = kind at h
  cases h <;> decide

theorem usable_enclosed {u : Token} {vs : List Token} (hus : ∀ v ∈ us, Usable v) (ht : Usable t)
    (hvs : ∀ v ∈ vs, Usable v) (hu : Usable u) :
    ∀ v ∈ us ++ t :: (vs ++ [u]), Usable v :=
  forall_mem_append.2 ⟨hus, forall_mem_cons.2 ⟨ht, forall_mem_append.2 ⟨hvs, forall_mem_singleton.2 hu⟩⟩⟩

/-- **Every token of a derivation may stand in an expression.** -/
theorem Derives.usable {ph : Phrase} (h : Derives ph us) : ∀ t ∈ us, Usable t := by
  have hnil : ∀ t ∈ ([] : List Token), Usable t := by simp
  have hopen {t : Token} (ht : t.kind = .leftParen) : Usable t :=
    usable_of_kind ht (.start (.operand .group)) (by decide)
  have hclose {t : Token} (ht : t.kind = .rightParen) : Usable t :=
    usable_of_kind ht .closeParen (by decide)
  have hopen' {t : Token} (ht : t.kind = .leftBracket) : Usable t :=
    usable_of_kind ht (.start (.operand .list)) (by decide)
  have hclose' {t : Token} (ht : t.kind = .rightBracket) : Usable t :=
    usable_of_kind ht .closeBracket (by decide)
  have hname {t : Token} (ht : t.kind = .identifier) : Usable t :=
    usable_of_kind ht (.start (.operand .name)) (by decide)
  induction h with
  | signed _ ih | tighter _ _ ih | applied _ ih | primary _ ih | one _ ih => exact ih
  | operator _ hop _ ihl ihr =>
    exact forall_mem_append.2 ⟨ihl, forall_mem_cons.2 ⟨hop.usable, ihr⟩⟩
  | sign hop _ ih => exact forall_mem_cons.2 ⟨hop.usable, ih⟩
  | callNothing _ ht hu ih => exact usable_enclosed ih (hopen ht) hnil (hclose hu)
  | call _ ht _ hu ih ihes => exact usable_enclosed ih (hopen ht) ihes (hclose hu)
  | field _ ht hu ih => exact usable_enclosed ih (usable_of_kind ht .field (by decide)) hnil (hname hu)
  | index _ ht _ hu ih ihi => exact usable_enclosed ih (hopen' ht) ihi (hclose' hu)
  | number ht hv => exact forall_mem_singleton.2 ⟨ht ▸ .start (.operand .number), fun _ => ⟨_, hv⟩⟩
  | text ht => exact forall_mem_singleton.2 (usable_of_kind ht (.start (.operand .text)) (by decide))
  | true ht => exact forall_mem_singleton.2 (usable_of_kind ht (.start (.operand .true)) (by decide))
  | false ht => exact forall_mem_singleton.2 (usable_of_kind ht (.start (.operand .false)) (by decide))
  | name ht => exact forall_mem_singleton.2 (hname ht)
  | this ht => exact forall_mem_singleton.2 (usable_of_kind ht (.start (.operand .this)) (by decide))
  | group ht _ hu ih => exact usable_enclosed hnil (hopen ht) ih (hclose hu)
  | listNothing ht hu => exact usable_enclosed hnil (hopen' ht) hnil (hclose' hu)
  | list ht _ hu ih => exact usable_enclosed hnil (hopen' ht) ih (hclose' hu)
  | more _ ht _ ih ihes =>
    exact forall_mem_append.2 ⟨ih, forall_mem_cons.2 ⟨usable_of_kind ht .comma (by decide), ihes⟩⟩

theorem Derives.kind_ne {ph : Phrase} (h : Derives ph us) (hkind : ¬InExpression kind) :
    ∀ t ∈ us, t.kind ≠ kind := by
  rintro t ht rfl
  exact hkind (h.usable t ht).1

theorem not_inExpression_end : ¬InExpression .endOfInput := by rintro (⟨h | h⟩ | h) <;> cases h

theorem Usable.ne_end (h : Usable t) : t.kind ≠ .endOfInput := fun ht => not_inExpression_end (ht ▸ h.1)

theorem Caught.noEnd {name : Option String} (h : Caught name us) : NoEnd us := by cases h <;> simp_all

theorem Forms.statement_ne_nil {s : Stmt} (h : Statement s us) : us ≠ [] := by cases h <;> simp

theorem Forms.statement_length_pos {s : Stmt} (h : Statement s us) :
    0 < us.length :=
  length_pos_iff.2 h.statement_ne_nil

end ScriptWorkbench.Grammar
