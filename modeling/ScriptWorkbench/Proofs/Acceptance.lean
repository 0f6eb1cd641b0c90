/-
Everything the grammar derives is read.

The difficulty is in the left-recursive rules. A derivation of `a + b + c` has its last operator at the root,
while the parser reads the first operand first and then goes round a loop that carries the tree built so far.
So what is proved of a derivation is not that the parser returns its tree but that the parser, having taken
its tokens, is in its loop with that tree as the left operand: whatever the loop then answers, the parser
answers.
-/
import ScriptWorkbench.Proofs.StatementOutcome

namespace ScriptWorkbench.Parser

open Ast Token Grammar List

variable {e left : Expr} {k n : Nat} {rest ts us vs : List Token} {t u : Token} {kind : Kind}
  {ss : List Stmt} {es : List Expr}

/-! ## Equations of the parser -/

theorem unary_sign {op : UnaryOp} (ts : List Token) (hop : PrefixOperator t.kind op) :
    unary (n + 1) (t :: ts) = (unary n ts >>= fun x => .ok (.unary op x.1, x.2)) := by
  obtain ⟨kind, value, position⟩ := t
  cases hop <;> rfl

theorem unary_operand (ts : List Token) (ht : StartsOperand t.kind) :
    unary (n + 1) (t :: ts) = (primary n (t :: ts) >>= fun x => trailers n x.1 x.2) := by
  obtain ⟨kind, value, position⟩ := t
  cases ht <;> rfl

def goOn (k n : Nat) (left : Expr) (ts : List Token) : Except Failure (Read Expr) :=
  if k < tightest then binaryRest n (levelAt k) (levels.drop (k + 1)) left ts else .ok (left, ts)

theorem goOn_stops (hstop : Stops k ts) :
    goOn k (n + 1) left ts = .ok (left, ts) := by
  rw [goOn]
  by_cases hk : k < tightest
  · rw [if_pos hk]
    match ts with
    | [] => rw [binaryRest]
    | t :: ts =>
      have hnone : (levelAt k).lookup t.kind = none := lookup_levelAt_none.2 fun op hop =>
        stops_cons.1 hstop (.inl ⟨k, op, Nat.le_refl k, hop⟩)
      rw [binaryRest, hnone]
  · rw [if_neg hk]

theorem goOn_operator {right : Expr} {op : BinaryOp} (hop : Operator k t.kind op)
    (hright : binary n (levels.drop (k + 1)) ts = .ok (right, rest)) :
    goOn k (n + 1) left (t :: ts) = goOn k n (.binary left op right) rest := by
  rw [goOn, goOn, if_pos hop.lt_tightest, if_pos hop.lt_tightest, binaryRest, lookup_levelAt.2 hop]
  rw [hright]
  rfl

theorem binary_tightest (n : Nat) (ts : List Token) :
    binary (n + 1) (levels.drop tightest) ts = unary n ts := by
  rw [levels_drop_tightest, binary]

theorem binary_tighter (hk : k < tightest)
    (hleft : binary n (levels.drop (k + 1)) ts = .ok (left, rest)) :
    binary (n + 1) (levels.drop k) ts = goOn k n left rest := by
  rw [levels_drop hk, binary, hleft, goOn, if_pos hk]
  rfl

theorem ok_bind {α β : Type} (a : α) (f : α → Except Failure β) : (Except.ok a >>= f) = f a := rfl

theorem expect_cons {want : Want} (ht : t.kind = kind) :
    expect kind want (t :: ts) = .ok (t, ts) := by
  rw [expect, if_pos ht]

theorem nextIs_cons :
    nextIs kind (t :: ts) = true ↔ t.kind = kind := by
  simp [nextIs]

/-- The kinds of token that may stand behind a whole expression. -/
inductive Delimiter : Kind → Prop where
  | rightParen : Delimiter .rightParen
  | rightBracket : Delimiter .rightBracket
  | comma : Delimiter .comma
  | semicolon : Delimiter .semicolon
  | leftBrace : Delimiter .leftBrace
  | dotDot : Delimiter .dotDot

theorem Delimiter.not_nextIs (h : Delimiter kind) (ht : StartsExpression t.kind) :
    ¬nextIs kind (t :: ts) = true := by
  have hkind : ¬StartsExpression kind := by cases h <;> rintro (h | h) <;> cases h
  rw [nextIs_cons]
  rintro rfl
  exact hkind ht

theorem Delimiter.stops (h : Delimiter kind) (ht : t.kind = kind) : Stops k (t :: rest) := by
  rw [stops_cons, ht]
  cases h <;> rintro (⟨j, op, -, h⟩ | h) <;> cases h

theorem trailers_callNothing (ts : List Token) (ht : t.kind = .leftParen)
    (hu : u.kind = .rightParen) :
    trailers (n + 1) e (t :: u :: ts) = trailers n (.call e []) ts := by
  rw [trailers, ht]
  rw [if_pos (nextIs_cons.2 hu)]
  rfl

theorem trailers_call {v : Token} (ht : t.kind = .leftParen) (hv : StartsExpression v.kind)
    (hes : items n (v :: ts) = .ok (es, u :: rest)) (hu : u.kind = .rightParen) :
    trailers (n + 1) e (t :: v :: ts) = trailers n (.call e es) rest := by
  rw [trailers, ht]
  dsimp only
  rw [if_neg (Delimiter.rightParen.not_nextIs hv), hes, ok_bind, expect_cons hu, ok_bind]

theorem trailers_field (ts : List Token) (ht : t.kind = .dot) (hu : u.kind = .identifier) :
    trailers (n + 1) e (t :: u :: ts) = trailers n (.attribute e u.value) ts := by
  rw [trailers, ht]
  rw [expect_cons hu, ok_bind]

theorem trailers_index {i : Expr} (ht : t.kind = .leftBracket)
    (hi : binary n levels ts = .ok (i, u :: rest)) (hu : u.kind = .rightBracket) :
    trailers (n + 1) e (t :: ts) = trailers n (.index e i) rest := by
  rw [trailers, ht]
  dsimp only
  rw [hi, ok_bind, expect_cons hu, ok_bind]

theorem trailers_stops (hstop : Stops tightest ts) :
    trailers (n + 1) e ts = .ok (e, ts) := by
  match ts with
  | [] => rw [trailers]
  | t :: ts =>
    have htr : ¬Trailer t.kind := fun h => stops_cons.1 hstop (.inr h)
    rw [trailers]
    split
    next ht => exact absurd (ht ▸ .call) htr
    next ht => exact absurd (ht ▸ .field) htr
    next ht => exact absurd (ht ▸ .index) htr
    next => rfl

theorem primary_group (ht : t.kind = .leftParen) (he : binary n levels ts = .ok (e, u :: rest))
    (hu : u.kind = .rightParen) : primary (n + 1) (t :: ts) = .ok (e, rest) := by
  rw [primary, ht]
  dsimp only
  rw [he, ok_bind, expect_cons hu]
  rfl

theorem primary_listNothing (ts : List Token) (ht : t.kind = .leftBracket)
    (hu : u.kind = .rightBracket) :
    primary (n + 1) (t :: u :: ts) = .ok (.list [], ts) := by
  rw [primary, ht]
  rw [if_pos (nextIs_cons.2 hu)]
  rfl

theorem primary_list {v : Token} (ht : t.kind = .leftBracket) (hv : StartsExpression v.kind)
    (hes : items n (v :: ts) = .ok (es, u :: rest)) (hu : u.kind = .rightBracket) :
    primary (n + 1) (t :: v :: ts) = .ok (.list es, rest) := by
  rw [primary, ht]
  dsimp only
  rw [if_neg (Delimiter.rightBracket.not_nextIs hv), hes, ok_bind, expect_cons hu]
  rfl

theorem items_one (he : binary n levels ts = .ok (e, rest)) (hrest : ¬nextIs .comma rest = true) :
    items (n + 1) ts = .ok ([e], rest) := by
  rw [items]
  simp only [he, ok_bind, if_neg hrest]
  rfl

theorem items_more {rest' : List Token} (he : binary n levels ts = .ok (e, t :: rest))
    (ht : t.kind = .comma) (hes : items n rest = .ok (es, rest')) :
    items (n + 1) ts = .ok (e :: es, rest') := by
  rw [items]
  simp only [he, ok_bind, if_pos (nextIs_cons.2 ht), drop_one, tail_cons, hes]
  rfl

/-! ## Expressions -/

/-- What the parser does on the tokens of a phrase, whatever follows them. For the phrases that a
loop can extend, the tree of the phrase is what the loop goes on with. -/
def Taken : Phrase → List Token → Prop
  | .level k e, us => ∀ {rest : List Token} {n : Nat} {r : Except Failure (Read Expr)},
      Stops (k + 1) rest → (∀ m, 16 * rest.length + 1 ≤ m → goOn k m e rest = r) →
      16 * (us ++ rest).length + (9 - k) ≤ n → binary n (levels.drop k) (us ++ rest) = r
  | .signed e, us => ∀ {rest : List Token} {n : Nat}, Stops tightest rest →
      16 * (us ++ rest).length + 2 ≤ n → unary n (us ++ rest) = .ok (e, rest)
  | .applied e, us => ∀ {rest : List Token} {n : Nat} {r : Except Failure (Read Expr)},
      (∀ m, 16 * rest.length + 1 ≤ m → trailers m e rest = r) →
      16 * (us ++ rest).length + 1 ≤ n →
      (primary n (us ++ rest) >>= fun x => trailers n x.1 x.2) = r
  | .primary e, us => ∀ {rest : List Token} {n : Nat},
      16 * (us ++ rest).length + 1 ≤ n → primary n (us ++ rest) = .ok (e, rest)
  | .items es, us => ∀ {rest : List Token} {n : Nat}, Stops 0 rest → ¬nextIs .comma rest = true →
      16 * (us ++ rest).length + 10 ≤ n → items n (us ++ rest) = .ok (es, rest)

theorem Taken.level_stops (h : Taken (.level k e) us) (hstop : Stops k rest)
    (hn : 16 * (us ++ rest).length + (9 - k) ≤ n) :
    binary n (levels.drop k) (us ++ rest) = .ok (e, rest) := by
  refine h (hstop.mono (Nat.le_succ k)) (fun m hm => ?_) hn
  obtain _ | m := m
  · omega
  exact goOn_stops hstop

theorem Taken.extend {e' : Expr} (h : Taken (.applied e) us)
    (hround : ∀ rest m, 16 * (t :: vs ++ rest).length ≤ m →
      trailers (m + 1) e (t :: vs ++ rest) = trailers m e' rest) :
    Taken (.applied e') (us ++ t :: vs) := by
  intro rest n r hr hn
  rw [append_assoc] at hn ⊢
  refine h (fun m hm => ?_) hn
  obtain _ | m := m
  · omega
  rw [hround rest m (by omega)]
  simp only [length_append, length_cons] at hm
  exact hr m (by omega)

/-- **Every derivation is read.** -/
theorem taken_of_derives {ph : Phrase} (h : Derives ph us) : Taken ph us := by
  induction h with
  | signed _ ih =>
    intro rest n r hstop hr hn
    simp only [tightest] at hn
    obtain _ | n := n
    · omega
    have hstop' : Stops tightest rest := hstop.of_succ fun t _ op hop =>
      absurd hop.lt_tightest (Nat.lt_irrefl _)
    rw [binary_tightest, ih hstop' (by omega)]
    exact hr (16 * rest.length + 1) (Nat.le_refl _)
  | tighter hk _ ih =>
    intro rest n r hstop hr hn
    simp only [tightest] at hk
    obtain _ | n := n
    · omega
    rw [binary_tighter hk (ih.level_stops hstop (by omega))]
    exact hr n (by grind)
  | @operator k l r op t us vs _ hop _ ihl ihr =>
    intro rest n res hstop hr hn
    rw [append_assoc]
    -- The left operand leaves the parser in the loop, which takes the operator and goes round again.
    refine ihl hop.stops (fun m hm => ?_) (by simpa using hn)
    obtain _ | m := m
    · omega
    simp only [length_cons, length_append] at hm
    rw [cons_append, goOn_operator hop (ihr.level_stops hstop
      (by grind))]
    exact hr m (by omega)
  | sign hop _ ih =>
    rintro rest (_ | n) hstop hn
    · omega
    rw [cons_append, length_cons] at hn
    rw [cons_append, unary_sign _ hop, ih hstop (by omega)]
    rfl
  | applied he ih =>
    rintro rest (_ | n) hstop hn
    · omega
    obtain ⟨t, vs, rfl, ht⟩ := he.head
    rw [cons_append, unary_operand _ ht]
    refine ih (fun m hm => ?_) (by omega)
    obtain _ | m := m
    · omega
    exact trailers_stops hstop
  | primary he ih =>
    intro rest n r hr hn
    rw [ih hn]
    exact hr n (by grind)
  | callNothing _ ht hu ih => exact ih.extend fun rest _ _ => trailers_callNothing rest ht hu
  | call _ ht hes hu ih ihes =>
    obtain ⟨v, ws, rfl, hv⟩ := hes.head
    refine ih.extend fun rest m hm => ?_
    simp only [cons_append, append_assoc] at hm ⊢
    refine trailers_call ht hv (ihes ?_ ?_ (by grind)) hu
    · exact Delimiter.rightParen.stops hu
    · simp [nextIs, hu]
  | field _ ht hu ih => exact ih.extend fun rest _ _ => trailers_field rest ht hu
  | index _ ht _ hu ih ihi =>
    refine ih.extend fun rest m hm => ?_
    simp only [cons_append, append_assoc, length_cons] at hm ⊢
    exact trailers_index ht (ihi.level_stops (Delimiter.rightBracket.stops hu) (by omega)) hu
  | number ht hv =>
    rintro rest (_ | n) hn
    · omega
    rw [cons_append, Parser.primary, ht]
    rw [hv]
    rfl
  | text ht | true ht | false ht | name ht | this ht =>
    rintro rest (_ | n) hn
    · omega
    rw [cons_append, Parser.primary, ht]
    rfl
  | group ht _ hu ih =>
    rintro rest (_ | n) hn
    · omega
    simp only [cons_append, append_assoc, length_cons] at hn ⊢
    exact primary_group ht (ih.level_stops (Delimiter.rightParen.stops hu) (by omega)) hu
  | listNothing ht hu =>
    rintro rest (_ | n) hn
    · omega
    exact primary_listNothing rest ht hu
  | list ht hes hu ih =>
    rintro rest (_ | n) hn
    · omega
    obtain ⟨v, ws, rfl, hv⟩ := hes.head
    simp only [cons_append, append_assoc] at hn ⊢
    refine primary_list ht hv (ih ?_ ?_ (by grind)) hu
    · exact Delimiter.rightBracket.stops hu
    · simp [nextIs, hu]
  | one _ ih =>
    rintro rest (_ | n) hstop hcomma hn
    · omega
    exact items_one (ih.level_stops hstop (by omega)) hcomma
  | more _ ht _ ih ihes =>
    rintro rest (_ | n) hstop hcomma hn
    · omega
    simp only [append_assoc] at hn ⊢
    refine items_more (ih.level_stops ?_ ?_) ht (ihes hstop hcomma ?_)
    · exact Delimiter.comma.stops ht
    · grind
    · grind

theorem expression_of_derives (he : Expression e us) (hstop : Stops 0 rest)
    (hn : 16 * (us ++ rest).length + 9 ≤ n) :
    expression n (us ++ rest) = .ok (e, rest) :=
  Taken.level_stops (taken_of_derives he) hstop hn

/-- **The expression parser and the expression grammar agree.** -/
theorem expression_eq_ok_iff (hn : 16 * ts.length + 9 ≤ n) :
    expression n ts = .ok (e, rest) ↔ ∃ us, ts = us ++ rest ∧ Expression e us ∧ Stops 0 rest := by
  constructor
  · intro h
    have hmeets := expression_meets n ts
    rw [h] at hmeets
    obtain ⟨us, hts, -, he, hstop⟩ := hmeets
    exact ⟨us, hts, he, hstop⟩
  · rintro ⟨us, rfl, he, hstop⟩
    exact expression_of_derives he hstop hn

/-- The expression that starts at a position of a token list, and the position behind it. Any budget
from the parser's own on gives the same answer; `extra` is what is granted beyond it. -/
def expressionAt (extra : Nat) (tokens : List Token) (start : Nat) : Except Failure (Expr × Nat) :=
  (expression (budget (tokens.drop start) + extra) (tokens.drop start)).map fun r =>
    (r.1, tokens.length - r.2.length)

theorem append_eq_drop_iff {tokens : List Token} {start stop : Nat} (hstart : start ≤ tokens.length) :
    (tokens.drop start = us ++ rest ∧ stop = tokens.length - rest.length) ↔
      start ≤ stop ∧ stop ≤ tokens.length ∧ us = tokens.extract start stop ∧ rest = tokens.drop stop := by
  constructor
  · rintro ⟨hdrop, rfl⟩
    have hlen : tokens.length - start = us.length + rest.length := by
      rw [← length_drop, hdrop, length_append]
    have hus : tokens.length - rest.length - start = us.length := by omega
    refine ⟨by omega, by omega, ?_, ?_⟩
    · rw [extract_eq_take_drop, hdrop, hus, take_left]
    · have hrest : tokens.length - rest.length = us.length + start := by omega
      rw [hrest, Nat.add_comm, ← drop_drop, hdrop, drop_left]
  · rintro ⟨hle, hlen, rfl, rfl⟩
    refine ⟨?_, by rw [length_drop]; omega⟩
    conv => lhs; rw [← take_append_drop (stop - start) (tokens.drop start)]
    rw [drop_drop, Nat.add_sub_cancel' hle]

/-- **The expression parser implements its grammar exactly.** From a position it returns a tree and
stops at a second position if and only if the tokens between them derive the tree, with the value of
every number token, and the token at the second position does not continue the expression. -/
theorem expressionAt_eq_ok_iff (extra : Nat) (tokens : List Token) (start stop : Nat) (e : Expr) :
    expressionAt extra tokens start = .ok (e, stop) ↔
      start ≤ stop ∧ stop ≤ tokens.length ∧ Expression e (tokens.extract start stop) ∧
        (∀ t ∈ tokens.extract start stop, t.kind = .number → ∃ v, numberLiteral t.value = .ok v) ∧
        Stops 0 (tokens.drop stop) := by
  have hn : 16 * (tokens.drop start).length + 9 ≤ budget (tokens.drop start) + extra := by
    rw [budget]
    omega
  constructor
  · intro h
    rw [expressionAt] at h
    match hread : expression (budget (tokens.drop start) + extra) (tokens.drop start) with
    | .error _ => rw [hread] at h; cases h
    | .ok (e', rest) =>
      rw [hread] at h
      obtain ⟨rfl, hstop⟩ : e' = e ∧ tokens.length - rest.length = stop := by simpa [Except.map] using h
      obtain ⟨us, hts, he, hstops⟩ := (expression_eq_ok_iff hn).1 hread
      have hstart : start ≤ tokens.length := by
        have := congrArg List.length hts
        have := he.length_pos
        grind
      obtain ⟨hle, hlen, rfl, rfl⟩ := (append_eq_drop_iff hstart).1 ⟨hts, hstop.symm⟩
      exact ⟨hle, hlen, he, fun t ht => (he.usable t ht).2, hstops⟩
  · rintro ⟨hle, hlen, he, -, hstops⟩
    obtain ⟨hts, hstop⟩ := (append_eq_drop_iff (Nat.le_trans hle hlen)).2 ⟨hle, hlen, rfl, rfl⟩
    rw [expressionAt, (expression_eq_ok_iff hn).2 ⟨_, hts, he, hstops⟩, Except.map, ← hstop]

/-! ## Statements -/

theorem not_inExpression_equal : ¬InExpression .equal := by rintro (⟨h | h⟩ | h) <;> cases h

theorem not_startsAssignment {semi : Token} (he : Expression e us) (hsemi : semi.kind = .semicolon) :
    ¬startsAssignment (us ++ semi :: rest) = true := by
  rw [startsAssignment_iff]
  rintro ⟨t, u, ws, heq, -, hu⟩
  have hne := he.kind_ne not_inExpression_equal
  match us, he.ne_nil with
  | [v], _ =>
    obtain ⟨-, rfl, -⟩ : v = t ∧ semi = u ∧ rest = ws := by simpa using heq
    rw [hsemi] at hu
    cases hu
  | v :: w :: vs, _ =>
    obtain ⟨-, rfl, -⟩ : v = t ∧ w = u ∧ vs ++ semi :: rest = ws := by simpa using heq
    exact hne w (by simp) hu

theorem closedExpression_of_derives {want : Want} {semi : Token} (he : Expression e us)
    (hsemi : semi.kind = .semicolon) (hn : 16 * (us ++ semi :: rest).length + 9 ≤ n) :
    closedExpression n want (us ++ semi :: rest) = .ok (e, rest) := by
  rw [closedExpression]
  simp only [expression_of_derives he (Delimiter.semicolon.stops hsemi) hn, ok_bind, expect_cons hsemi]
  rfl

theorem stops_block (h : Block ss us) :
    Stops k (us ++ rest) := by
  cases h with
  | block ht _ => exact Delimiter.leftBrace.stops ht

theorem not_nextIs_block (h : Block ss us) (hkind : kind ≠ .leftBrace) :
    ¬nextIs kind (us ++ rest) = true := by
  cases h with
  | block ht _ =>
    rw [cons_append, nextIs_cons, ht]
    exact hkind.symm

theorem loopSource_of_source (he : Source e us) (hss : Block ss vs)
    (hn : 16 * (us ++ (vs ++ rest)).length + 9 ≤ n) :
    loopSource n (us ++ (vs ++ rest)) = .ok (e, vs ++ rest) := by
  rw [loopSource]
  cases he with
  | value he =>
    have hdots : ¬nextIs .dotDot (vs ++ rest) = true := not_nextIs_block hss (by decide)
    simp only [expression_of_derives he (stops_block hss) hn, ok_bind, if_neg hdots]
    rfl
  | @range first last t us ws hfirst ht hlast =>
    have hstop : Stops 0 (t :: (ws ++ (vs ++ rest))) := Delimiter.dotDot.stops ht
    rw [append_assoc, cons_append] at hn ⊢
    have hn' : 16 * (ws ++ (vs ++ rest)).length + 9 ≤ n := by
      grind
    simp only [expression_of_derives hfirst hstop hn, ok_bind, if_pos (nextIs_cons.2 ht),
      drop_one, tail_cons, expression_of_derives hlast (stops_block hss) hn']
    rfl

theorem caughtName_of_caught {name : Option String} (hname : Caught name us) (hss : Block ss vs) :
    caughtName (us ++ (vs ++ rest)) = (name, vs ++ rest) := by
  cases hname with
  | nothing =>
    cases hss with
    | block ht _ => rw [nil_append, cons_append, caughtName, if_neg (by rw [ht]; decide)]
  | error ht => rw [cons_append, caughtName, if_pos ht, nil_append]

theorem statement_simple (ts : List Token) (ht : StartsExpression t.kind) :
    statement (n + 1) (t :: ts) =
      if startsAssignment (t :: ts) then
        closedExpression n .assignEnd (ts.drop 1) >>= fun x => .ok (.assign t.value x.1, x.2)
      else closedExpression n .statementEnd (t :: ts) >>= fun x => .ok (.expr x.1, x.2) := by
  obtain ⟨kind, value, position⟩ := t
  obtain h | h := ht <;> cases h <;> rfl

/-- What the parser does on the tokens of a part, whatever follows them. Only a statement can go on
behind its tokens, namely an `if` with an `else`. -/
def Received : Part → List Token → Prop
  | .statement s, us => ∀ {rest : List Token} {n : Nat}, ¬nextIs .elseWord rest = true →
      16 * (us ++ rest).length + 10 ≤ n → statement n (us ++ rest) = .ok (s, rest)
  | .otherwise b, us => ∀ {rest : List Token} {n : Nat}, ¬nextIs .elseWord rest = true →
      16 * (us ++ rest).length + 1 ≤ n → alternative n (us ++ rest) = .ok (b, rest)
  | .block ss, us => ∀ {rest : List Token} {n : Nat},
      16 * (us ++ rest).length + 1 ≤ n → block n (us ++ rest) = .ok (ss, rest)
  | .closing ss, us => ∀ {rest : List Token} {n : Nat},
      16 * (us ++ rest).length + 11 ≤ n → blockRest n (us ++ rest) = .ok (ss, rest)

inductive StartsStatement : Kind → Prop where
  | letVar : StartsStatement .letWord
  | result : StartsStatement .returnWord
  | cond : StartsStatement .ifWord
  | forEach : StartsStatement .forWord
  | loop : StartsStatement .whileWord
  | guarded : StartsStatement .tryWord
  | expr {kind : Kind} : StartsExpression kind → StartsStatement kind

theorem statement_head {s : Stmt} (h : Statement s us) :
    ∃ t vs, us = t :: vs ∧ StartsStatement t.kind := by
  cases h with
  | letVar ht => exact ⟨_, _, rfl, by rw [ht]; exact .letVar⟩
  | assign ht => exact ⟨_, _, rfl, by rw [ht]; exact .expr (.operand .name)⟩
  | returnNothing ht | returnValue ht => exact ⟨_, _, rfl, by rw [ht]; exact .result⟩
  | cond ht => exact ⟨_, _, rfl, by rw [ht]; exact .cond⟩
  | forEach ht => exact ⟨_, _, rfl, by rw [ht]; exact .forEach⟩
  | loop ht => exact ⟨_, _, rfl, by rw [ht]; exact .loop⟩
  | guarded ht => exact ⟨_, _, rfl, by rw [ht]; exact .guarded⟩
  | expr he =>
    obtain ⟨t, vs, rfl, ht⟩ := he.head
    exact ⟨t, _, rfl, .expr ht⟩

theorem not_nextIs_closing (h : Forms (.closing ss) us) (hkind : ¬StartsStatement kind)
    (hne : kind ≠ .rightBrace) :
    ¬nextIs kind (us ++ rest) = true := by
  cases h with
  | close ht =>
    rw [cons_append, nextIs_cons, ht]
    exact hne.symm
  | cons hs _ =>
    obtain ⟨t, vs, rfl, ht⟩ := statement_head hs
    simp only [cons_append, nextIs_cons]
    rintro rfl
    exact hkind ht

theorem not_startsStatement_rightBrace : ¬StartsStatement .rightBrace := by
  rintro (_ | _ | _ | _ | _ | _ | h)
  obtain h | h := h <;> cases h

theorem not_startsStatement_else : ¬StartsStatement .elseWord := by
  rintro (_ | _ | _ | _ | _ | _ | h)
  obtain h | h := h <;> cases h

/-- **Every statement, block and alternative of the grammar is read.** -/
theorem received_of_forms {part : Part} (h : Forms part us) :
    Received part us := by
  induction h with
  | @letVar e t name eq semi us ht hname heq he hsemi =>
    rintro rest (_ | n) _ hn
    · omega
    simp only [cons_append, append_assoc, nil_append, length_cons] at hn ⊢
    rw [statement, ht]
    simp only [expect_cons hname, expect_cons heq, ok_bind,
      closedExpression_of_derives he hsemi (by omega : 16 * (us ++ semi :: rest).length + 9 ≤ n)]
    rfl
  | @assign e name eq semi us hname heq he hsemi =>
    rintro rest (_ | n) _ hn
    · omega
    simp only [cons_append, append_assoc, nil_append, length_cons] at hn ⊢
    have hstarts : startsAssignment (name :: eq :: (us ++ semi :: rest)) = true :=
      startsAssignment_iff.2 ⟨name, eq, _, rfl, hname, heq⟩
    rw [statement_simple _ (by rw [hname]; exact .operand .name), if_pos hstarts, drop_one,
      tail_cons, closedExpression_of_derives he hsemi (by omega)]
    rfl
  | @returnNothing t semi ht hsemi =>
    rintro rest (_ | n) _ hn
    · omega
    simp only [cons_append, nil_append]
    rw [statement, ht]
    simp only [if_pos (nextIs_cons.2 hsemi), drop_one, tail_cons]
  | @returnValue e t semi us ht he hsemi =>
    rintro rest (_ | n) _ hn
    · omega
    simp only [cons_append, append_assoc, nil_append, length_cons] at hn ⊢
    obtain ⟨v, vs, rfl, hv⟩ := he.head
    have hnext : ¬nextIs .semicolon (v :: vs ++ semi :: rest) = true := Delimiter.semicolon.not_nextIs hv
    have hvalue : closedExpression n .returnEnd (v :: vs ++ semi :: rest) = .ok (e, rest) :=
      closedExpression_of_derives he hsemi (by omega)
    rw [statement, ht]
    simp only [if_neg hnext, hvalue]
    rfl
  | @cond e ss b t us vs ws ht he hss _ ihss ihb =>
    rintro rest (_ | n) helse hn
    · omega
    simp only [cons_append, append_assoc] at hn ⊢
    have htest : expression n (us ++ (vs ++ (ws ++ rest))) = .ok (e, vs ++ (ws ++ rest)) :=
      expression_of_derives he (stops_block hss) (by grind)
    have hbody : Parser.block n (vs ++ (ws ++ rest)) = .ok (ss, ws ++ rest) :=
      ihss (by grind)
    have hother : alternative n (ws ++ rest) = .ok (b, rest) :=
      ihb helse (by grind)
    rw [statement, ht]
    simp only [htest, hbody, hother, ok_bind]
    rfl
  | @forEach e ss t name within us vs ht hname hin he hss ih =>
    rintro rest (_ | n) _ hn
    · omega
    simp only [cons_append, append_assoc] at hn ⊢
    have hsource : loopSource n (us ++ (vs ++ rest)) = .ok (e, vs ++ rest) :=
      loopSource_of_source he hss (by grind)
    have hbody : Parser.block n (vs ++ rest) = .ok (ss, rest) :=
      ih (by grind)
    rw [statement, ht]
    simp only [expect_cons hname, expect_cons hin, hsource, hbody, ok_bind]
    rfl
  | @loop e ss t us vs ht he hss ih =>
    rintro rest (_ | n) _ hn
    · omega
    simp only [cons_append, append_assoc] at hn ⊢
    have htest : expression n (us ++ (vs ++ rest)) = .ok (e, vs ++ rest) :=
      expression_of_derives he (stops_block hss) (by grind)
    have hbody : Parser.block n (vs ++ rest) = .ok (ss, rest) :=
      ih (by grind)
    rw [statement, ht]
    simp only [htest, hbody, ok_bind]
    rfl
  | @guarded ss ss' name t u us vs ws ht hss hu hname hss' ih ih' =>
    rintro rest (_ | n) _ hn
    · omega
    simp only [cons_append, append_assoc] at hn ⊢
    have hbody : Parser.block n (us ++ u :: (vs ++ (ws ++ rest))) =
        .ok (ss, u :: (vs ++ (ws ++ rest))) :=
      ih (by grind)
    have hhandler : Parser.block n (ws ++ rest) = .ok (ss', rest) :=
      ih' (by grind)
    rw [statement, ht]
    simp only [hbody, expect_cons hu, caughtName_of_caught hname hss', hhandler, ok_bind]
    rfl
  | @expr e semi us he hsemi =>
    rintro rest (_ | n) _ hn
    · omega
    have hassign : ¬startsAssignment (us ++ semi :: rest) = true := not_startsAssignment he hsemi
    obtain ⟨t, vs, rfl, ht⟩ := he.head
    simp only [cons_append, append_assoc, nil_append] at hn hassign ⊢
    rw [statement_simple _ ht, if_neg hassign, ← cons_append, closedExpression_of_derives he hsemi (by grind)]
    rfl
  | nothing =>
    rintro rest (_ | n) helse hn
    · omega
    cases rest with
    | nil => rw [append_nil, alternative]
    | cons t rest => rw [nil_append, alternative, if_neg fun h => helse (nextIs_cons.2 h)]
  | elseBlock ht hss ih =>
    rintro rest (_ | n) _ hn
    · omega
    rw [cons_append, length_cons] at hn
    rw [cons_append, alternative, if_pos ht, if_neg (not_nextIs_block hss (by decide)), ih (by omega)]
    rfl
  | elseIf ht hu _ ih =>
    rintro rest (_ | n) helse hn
    · omega
    simp only [cons_append, length_cons] at hn ⊢
    rw [alternative, if_pos ht, if_pos (nextIs_cons.2 hu), drop_one, tail_cons, ih helse (by omega)]
    rfl
  | block ht _ ih =>
    rintro rest (_ | n) hn
    · omega
    rw [cons_append, length_cons] at hn
    rw [cons_append, Parser.block, expect_cons ht]
    exact ih (by omega)
  | close ht =>
    rintro rest (_ | n) hn
    · omega
    rw [cons_append, blockRest, if_pos (nextIs_cons.2 ht), drop_one, tail_cons, nil_append]
  | @cons s ss us vs hs hss ih ihss =>
    rintro rest (_ | n) hn
    · omega
    -- The statement takes a token, which pays for the rest of the block.
    have hpos := hs.statement_length_pos
    simp only [append_assoc] at hn ⊢
    have hbrace : ¬nextIs .rightBrace (us ++ (vs ++ rest)) = true := by
      obtain ⟨t, ws, rfl, ht⟩ := statement_head hs
      rw [cons_append, nextIs_cons]
      intro h
      exact not_startsStatement_rightBrace (h ▸ ht)
    have helse : ¬nextIs .elseWord (vs ++ rest) = true :=
      not_nextIs_closing hss not_startsStatement_else (by decide)
    have hfirst : statement n (us ++ (vs ++ rest)) = .ok (s, vs ++ rest) :=
      ih helse (by grind)
    have hothers : blockRest n (vs ++ rest) = .ok (ss, rest) :=
      ihss (by grind)
    rw [blockRest, if_neg hbrace]
    simp only [hfirst, hothers, ok_bind]
    rfl

theorem statement_of_forms {s : Stmt} (hs : Statement s us) (helse : ¬nextIs .elseWord rest = true)
    (hn : 16 * (us ++ rest).length + 10 ≤ n) :
    statement n (us ++ rest) = .ok (s, rest) :=
  received_of_forms hs helse hn

theorem block_of_forms (hss : Block ss us) (hn : 16 * (us ++ rest).length + 1 ≤ n) :
    block n (us ++ rest) = .ok (ss, rest) :=
  received_of_forms hss hn

/-! ## Programs -/

theorem parameterNames_of_names {ns : List String} (h : Names ns us)
    (hcomma : ¬nextIs .comma rest = true) (hn : (us ++ rest).length ≤ n) :
    parameterNames n (us ++ rest) = .ok (ns, rest) := by
  induction h generalizing n with
  | one ht =>
    obtain ⟨n, rfl⟩ := Nat.exists_eq_add_one_of_ne_zero (by rintro rfl; simp at hn : n ≠ 0)
    rw [cons_append, nil_append, parameterNames]
    simp only [expect_cons ht, ok_bind, if_neg hcomma]
    rfl
  | @more ns t u us ht hu _ ih =>
    obtain ⟨n, rfl⟩ := Nat.exists_eq_add_one_of_ne_zero (by rintro rfl; simp at hn : n ≠ 0)
    have hothers : parameterNames n (us ++ rest) = .ok (ns, rest) :=
      ih (by grind)
    rw [cons_append, cons_append, parameterNames]
    simp only [expect_cons ht, ok_bind, if_pos (nextIs_cons.2 hu), drop_one, tail_cons, hothers]
    rfl

theorem parameters_of_grammar {ns : List String} {r : Token} (h : Parameters ns us)
    (hr : r.kind = .rightParen) (hn : (us ++ r :: rest).length ≤ n) :
    parameters n (us ++ r :: rest) = .ok (ns, r :: rest) := by
  have hcomma : ¬nextIs .comma (r :: rest) = true := by
    rw [nextIs_cons, hr]
    decide
  rw [parameters]
  cases h with
  | nothing => rw [nil_append, if_pos (nextIs_cons.2 hr)]
  | names hns =>
    have hnext : ¬nextIs .rightParen (us ++ r :: rest) = true := by
      cases hns with
      | one ht | more ht _ _ =>
        rw [cons_append, nextIs_cons, ht]
        decide
    rw [if_neg hnext]
    exact parameterNames_of_names hns hcomma hn

theorem superclass_of_parent {parent : Option String} (h : Parent parent us) (hss : Block ss vs) :
    superclass (us ++ (vs ++ rest)) = .ok (parent, vs ++ rest) := by
  rw [superclass]
  cases h with
  | nothing => rw [nil_append, if_neg (not_nextIs_block hss (by decide))]
  | extending ht hu =>
    rw [cons_append, if_pos (nextIs_cons.2 ht), drop_one, tail_cons, cons_append, expect_cons hu]
    rfl

inductive StartsItem : Kind → Prop where
  | function : StartsItem .funcWord
  | mainBlock : StartsItem .mainWord
  | declaration : StartsItem .classWord
  | statement {kind : Kind} : StartsStatement kind → StartsItem kind

theorem makes_head {item : Item} (h : Makes item us) :
    ∃ t vs, us = t :: vs ∧ StartsItem t.kind := by
  cases h with
  | function ht => exact ⟨_, _, rfl, by rw [ht]; exact .function⟩
  | mainBlock ht => exact ⟨_, _, rfl, by rw [ht]; exact .mainBlock⟩
  | declaration ht => exact ⟨_, _, rfl, by rw [ht]; exact .declaration⟩
  | statement hs =>
    obtain ⟨t, vs, rfl, ht⟩ := statement_head hs
    exact ⟨t, vs, rfl, .statement ht⟩

theorem StartsStatement.loose (h : StartsStatement kind) : isLoose kind = true ∧ kind ≠ .endOfInput := by
  obtain _ | _ | _ | _ | _ | _ | h := h
  any_goals decide
  obtain h | h := h <;> cases h <;> decide

theorem StartsItem.ne_end (h : StartsItem kind) : kind ≠ .endOfInput := by
  rintro rfl
  obtain _ | _ | _ | h := h
  exact h.loose.2 rfl

theorem item_statement (ts : List Token) (ht : StartsStatement t.kind) :
    item n (t :: ts) = statement n (t :: ts) >>= fun x => .ok (.statement x.1, x.2) := by
  have hloose := ht.loose.1
  rw [item]
  split <;> simp_all [isLoose]

/-- **One item of a program is read.** -/
theorem item_of_makes {i : Item} (h : Makes i us) (helse : ¬nextIs .elseWord rest = true)
    (hn : 16 * (us ++ rest).length + 10 ≤ n) : item n (us ++ rest) = .ok (i, rest) := by
  cases h with
  | @function ns ss t name l r us vs ht hname hl hns hr hss =>
    simp only [cons_append, append_assoc] at hn ⊢
    have hparameters : parameters n (us ++ r :: (vs ++ rest)) = .ok (ns, r :: (vs ++ rest)) :=
      parameters_of_grammar hns hr (by grind)
    have hbody : block n (vs ++ rest) = .ok (ss, rest) :=
      block_of_forms hss (by grind)
    have hfunction : function n (name :: l :: (us ++ r :: (vs ++ rest))) =
        .ok (⟨name.value, ns, .block ss⟩, rest) := by
      rw [function]
      simp only [expect_cons hname, expect_cons hl, hparameters, expect_cons hr, hbody, ok_bind]
      rfl
    simp only [item, ht, hfunction, ok_bind]
  | @mainBlock ss t us ht hss =>
    rw [cons_append, length_cons] at hn
    have hbody : block n (us ++ rest) = .ok (ss, rest) := block_of_forms hss (by omega)
    have hmain : mainBlock n (us ++ rest) = .ok (⟨"main", [], .block ss⟩, rest) := by
      rw [mainBlock]
      simp only [hbody]
      rfl
    simp only [cons_append, item, ht, hmain, ok_bind]
  | @declaration ss parent t name us vs ht hname hparent hss =>
    simp only [cons_append, append_assoc] at hn ⊢
    have hbody : block n (vs ++ rest) = .ok (ss, rest) :=
      block_of_forms hss (by grind)
    have hclass : classDeclaration n (name :: (us ++ (vs ++ rest))) =
        .ok (⟨name.value, parent, .block ss⟩, rest) := by
      rw [classDeclaration]
      simp only [expect_cons hname, superclass_of_parent hparent hss, hbody, ok_bind]
      rfl
    simp only [item, ht, hclass, ok_bind]
  | @statement s us hs =>
    have hread : statement n (us ++ rest) = .ok (s, rest) := statement_of_forms hs helse hn
    obtain ⟨t, vs, rfl, ht⟩ := statement_head hs
    rw [cons_append] at hread ⊢
    rw [item_statement _ ht, hread]
    rfl

theorem topLevel_of_makes {i : Item} {p : Program} (h : Makes i us)
    (helse : ¬nextIs .elseWord rest = true) (hrest : topLevel n rest = .ok p)
    (hn : 16 * (us ++ rest).length + 10 ≤ n) : topLevel (n + 1) (us ++ rest) = .ok (i.addTo p) := by
  have hread := item_of_makes h helse hn
  obtain ⟨t, vs, rfl, ht⟩ := makes_head h
  rw [cons_append] at hread ⊢
  rw [topLevel_succ _ ht.ne_end, hread]
  simp only [hrest]
  rfl

theorem not_startsItem_else : ¬StartsItem .elseWord := by
  rintro (_ | _ | _ | h)
  exact not_startsStatement_else h

theorem not_nextIs_else_join (pieces : List Piece) (helse : ¬nextIs .elseWord rest = true) :
    ¬nextIs .elseWord (Piece.join pieces ++ rest) = true := by
  match pieces with
  | [] => exact helse
  | ⟨item, us, hmakes⟩ :: pieces =>
    obtain ⟨t, vs, rfl, ht⟩ := makes_head hmakes
    simp only [Piece.join, map_cons, flatten_cons, cons_append, nextIs_cons]
    intro h
    exact not_startsItem_else (h ▸ ht)

/-- **The items of a program are read in order,** whatever is read behind them. -/
theorem topLevel_of_pieces {p : Program} (pieces : List Piece)
    (helse : ¬nextIs .elseWord rest = true)
    (hrest : ∀ m, 16 * rest.length + 11 ≤ m → topLevel m rest = .ok p)
    (hn : 16 * (Piece.join pieces ++ rest).length + 11 ≤ n) :
    topLevel n (Piece.join pieces ++ rest) =
      .ok ((pieces.map Piece.item).foldr (fun item p => item.addTo p) p) := by
  induction pieces generalizing n with
  | nil => exact hrest n hn
  | cons piece pieces ih =>
    obtain _ | n := n
    · omega
    have hjoin : Piece.join (piece :: pieces) ++ rest =
        piece.tokens ++ (Piece.join pieces ++ rest) := by
      simp [Piece.join]
    obtain ⟨t, vs, htokens, -⟩ := makes_head piece.makes
    rw [hjoin] at hn ⊢
    refine topLevel_of_makes piece.makes (not_nextIs_else_join pieces helse) (ih ?_) (by omega)
    rw [htokens, cons_append, length_cons, length_append] at hn
    omega

end ScriptWorkbench.Parser
