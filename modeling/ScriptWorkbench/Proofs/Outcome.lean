/-
What the parser can answer, function by function.

A reading function ends in one of five ways. It returns a tree: then the tokens it took derive that tree and
the next token does not continue it. It rejects a token: then the tokens before that one are the beginning of
something the grammar allows. It meets the end of the list: then the whole list is such a beginning and holds
no end of the input. It meets a number token whose text is no number. Or its budget was too small.

These five are put into one predicate, `Meets`, and there is one lemma about running two readers after each
other. Everything said about a single function of the parser is then one application of that lemma per call in
its body.
-/
import ScriptWorkbench.Proofs.Grammar

namespace ScriptWorkbench.Parser

open Ast Token Grammar List

variable {k : Nat} {us : List Token} {kind : Kind}

/-! ## The table of operators -/

def levelAt (k : Nat) : Level := levels.getD k []

theorem levels_drop (hk : k < tightest) :
    levels.drop k = levelAt k :: levels.drop (k + 1) := by
  have hlen : k < levels.length := hk
  rw [drop_eq_getElem_cons hlen, levelAt, getD_eq_getElem?_getD, getElem?_eq_getElem hlen, Option.getD_some]

theorem levels_drop_tightest : levels.drop tightest = [] := rfl

theorem operator_of_mem_levelAt {op : BinaryOp} (h : (kind, op) ∈ levelAt k) :
    Operator k kind op := by
  match k with
  | 0 | 1 =>
    obtain h | h := mem_cons.1 h
    · cases h; constructor
    · cases h
  | 2 | 4 | 5 =>
    obtain h | h := mem_cons.1 h
    · cases h; constructor
    · cases mem_singleton.1 h; constructor
  | 3 =>
    simp only [levelAt, levels, getD_cons_succ, getD_cons_zero, mem_cons, not_mem_nil, or_false] at h
    rcases h with ⟨rfl, rfl⟩ | ⟨rfl, rfl⟩ | ⟨rfl, rfl⟩ | ⟨rfl, rfl⟩ <;> constructor
  | k + 6 => exact absurd h not_mem_nil

theorem lookup_levelAt {op : BinaryOp} :
    (levelAt k).lookup kind = some op ↔ Operator k kind op := by
  constructor
  · intro h
    obtain ⟨l₁, l₂, heq, -⟩ := lookup_eq_some_iff.1 h
    exact operator_of_mem_levelAt (heq ▸ mem_append_right l₁ mem_cons_self)
  · rintro (_ | _) <;> rfl

theorem lookup_levelAt_none :
    (levelAt k).lookup kind = none ↔ ∀ op, ¬Operator k kind op := by
  constructor
  · intro h op hop
    rw [lookup_levelAt.2 hop] at h
    cases h
  · intro h
    cases hl : (levelAt k).lookup kind with
    | none => rfl
    | some op => exact absurd (lookup_levelAt.1 hl) (h op)

/-! ## Answers of a reader -/

section Meets

variable {α β : Type}

/-- What a reader may answer on the tokens `ts`. `done us a rest` says what holds when it took `us`,
read `a` and left `rest`; `opened us` says what holds of the tokens before the one it rejects; and
`short` holds whenever the budget runs out. -/
def Meets (short : Prop) (done : List Token → α → List Token → Prop) (opened : List Token → Prop)
    (ts : List Token) : Except Failure (Read α) → Prop
  | .ok (a, rest) => ∃ us, ts = us ++ rest ∧ NoEnd us ∧ done us a rest
  | .error (.unexpected _ t) => ∃ us rest, ts = us ++ t :: rest ∧ NoEnd us ∧ opened us
  | .error (.misplaced _) => False
  | .error .ranOff => NoEnd ts ∧ opened ts
  | .error (.badNumber e) => ∃ t ∈ ts, t.kind = .number ∧ numberLiteral t.value = .error e
  | .error .exhausted => short

variable {short short' : Prop} {done done' : List Token → α → List Token → Prop}
  {opened opened' : List Token → Prop} {ts : List Token} {r : Except Failure (Read α)}

theorem Meets.imp (h : Meets short done opened ts r) (hshort : short → short')
    (hdone : ∀ us a rest, ts = us ++ rest → done us a rest → done' us a rest)
    (hopened : ∀ us, opened us → opened' us) : Meets short' done' opened' ts r := by
  match r, h with
  | .ok (a, rest), ⟨us, hts, hend, hd⟩ => exact ⟨us, hts, hend, hdone us a rest hts hd⟩
  | .error (.unexpected _ t), ⟨us, rest, hts, hend, ho⟩ => exact ⟨us, rest, hts, hend, hopened us ho⟩
  | .error .ranOff, ⟨hend, ho⟩ => exact ⟨hend, hopened ts ho⟩
  | .error (.badNumber e), h => exact h
  | .error .exhausted, h => exact hshort h

theorem Meets.short_imp (h : Meets short done opened ts r) (hshort : short → short') :
    Meets short' done opened ts r :=
  h.imp hshort (fun _ _ _ _ hd => hd) (fun _ ho => ho)

theorem Meets.prepend (hus : NoEnd us)
    (h : Meets short (fun vs => done (us ++ vs)) (fun vs => opened (us ++ vs)) ts r) :
    Meets short done opened (us ++ ts) r := by
  match r, h with
  | .ok (a, rest), ⟨vs, hts, hend, hd⟩ =>
    exact ⟨us ++ vs, by rw [hts, append_assoc], noEnd_append.2 ⟨hus, hend⟩, hd⟩
  | .error (.unexpected _ t), ⟨vs, rest, hts, hend, ho⟩ =>
    exact ⟨us ++ vs, rest, by rw [hts, append_assoc], noEnd_append.2 ⟨hus, hend⟩, ho⟩
  | .error .ranOff, ⟨hend, ho⟩ => exact ⟨noEnd_append.2 ⟨hus, hend⟩, ho⟩
  | .error (.badNumber e), ⟨t, ht, hkind, he⟩ => exact ⟨t, mem_append_right us ht, hkind, he⟩
  | .error .exhausted, h => exact h

theorem Meets.cons {t : Token} (ht : t.kind = kind)
    (h : Meets short (fun vs => done (t :: vs)) (fun vs => opened (t :: vs)) ts r)
    (hkind : (kind != .endOfInput) = true) : Meets short done opened (t :: ts) r := by
  have hend : NoEnd [t] := by simpa [ht] using hkind
  exact Meets.prepend hend h

/-- **Two readers after each other.** What the first one opened the whole opens too, and the second
one starts where the first one stopped. -/
theorem Meets.bind {done' : List Token → β → List Token → Prop}
    {f : Read α → Except Failure (Read β)} (h : Meets short done opened ts r)
    (hopened : ∀ us, opened us → opened' us)
    (hf : ∀ us a rest, ts = us ++ rest → done us a rest →
      Meets short (fun vs => done' (us ++ vs)) (fun vs => opened' (us ++ vs)) rest (f (a, rest))) :
    Meets short done' opened' ts (r >>= f) := by
  match r, h with
  | .ok (a, rest), ⟨us, hts, hend, hd⟩ =>
    have := (hf us a rest hts hd).prepend hend
    rw [hts]
    exact this
  | .error (.unexpected _ t), ⟨us, rest, hts, hend, ho⟩ => exact ⟨us, rest, hts, hend, hopened us ho⟩
  | .error .ranOff, ⟨hend, ho⟩ => exact ⟨hend, hopened ts ho⟩
  | .error (.badNumber e), h => exact h
  | .error .exhausted, h => exact h

/-- The front of a whole part is the beginning of one. -/
theorem begun {γ : Type} {P : γ → List Token → Prop} {c : γ} {vs : List Token} (h : P c vs)
    (hus : us <+: vs) : ∃ vs c, P c (us ++ vs) := by
  obtain ⟨ws, rfl⟩ := hus
  exact ⟨ws, c, h⟩

/-- **A part and what comes behind it.** The tokens of a part that broke off are the beginning of one. -/
theorem Meets.andThen {γ : Type} {P : γ → List Token → Prop} {done' : List Token → β → List Token → Prop}
    {f : Read α → Except Failure (Read β)} (h : Meets short done (fun us => ∃ vs c, P c (us ++ vs)) ts r)
    (hopened : ∀ {us vs c}, P c (us ++ vs) → opened' us)
    (hf : ∀ us a rest, ts = us ++ rest → done us a rest →
      Meets short' (fun vs => done' (us ++ vs)) (fun vs => opened' (us ++ vs)) rest (f (a, rest)))
    (hshort : short → short') : Meets short' done' opened' ts (r >>= f) := by
  refine (h.short_imp hshort).bind ?_ hf
  rintro us ⟨vs, c, hc⟩
  exact hopened hc

theorem Meets.pure {a : α} (h : done [] a ts) : Meets short done opened ts (.ok (a, ts)) :=
  ⟨[], rfl, noEnd_nil, h⟩

theorem Meets.single {a : α} {t : Token} (ht : t.kind = kind) (h : done [t] a ts)
    (hkind : (kind != .endOfInput) = true) : Meets short done opened (t :: ts) (.ok (a, ts)) :=
  ⟨[t], rfl, by simpa [ht] using hkind, h⟩

theorem Meets.reject {want : Want} {t : Token} (h : opened []) :
    Meets short done opened (t :: ts) (.error (.unexpected want t)) :=
  ⟨[], ts, rfl, noEnd_nil, h⟩

end Meets

theorem expect_meets (hkind : (kind != .endOfInput) = true) (want : Want) (ts : List Token) :
    Meets False (fun us t _ => us = [t] ∧ t.kind = kind) (· = []) ts (expect kind want ts) := by
  match ts with
  | [] => exact ⟨noEnd_nil, rfl⟩
  | t :: ts =>
    rw [expect]
    by_cases h : t.kind = kind
    · rw [if_pos h]
      exact .single h ⟨rfl, h⟩ hkind
    · rw [if_neg h]
      exact .reject rfl

section Meets

variable {β : Type} {short : Prop} {done : List Token → β → List Token → Prop}
  {opened : List Token → Prop} {ts : List Token}

theorem Meets.expect {want : Want} {f : Read Token → Except Failure (Read β)} (hopened : opened [])
    (hf : ∀ t rest, ts = t :: rest → t.kind = kind →
      Meets short (fun vs => done (t :: vs)) (fun vs => opened (t :: vs)) rest (f (t, rest)))
    (hkind : (kind != .endOfInput) = true) :
    Meets short done opened ts (Parser.expect kind want ts >>= f) := by
  refine Meets.bind ((expect_meets hkind want ts).imp False.elim (fun _ _ _ _ h => h)
    (fun _ h => h)) (fun us hus => hus ▸ hopened) ?_
  rintro us t rest hts ⟨rfl, ht⟩
  exact hf t rest hts ht

theorem nextIs_iff {ts : List Token} :
    nextIs kind ts = true ↔ ∃ t rest, ts = t :: rest ∧ t.kind = kind := by
  cases ts with
  | nil | cons t rest => simp [nextIs]

theorem Meets.ifNext {r r' : Except Failure (Read β)} (hthen : ∀ t rest, ts = t :: rest → t.kind = kind →
      Meets short (fun vs => done (t :: vs)) (fun vs => opened (t :: vs)) rest r)
    (helse : Meets short done opened ts r') (hkind : (kind != .endOfInput) = true) :
    Meets short done opened ts (if nextIs kind ts then r else r') := by
  by_cases hnext : nextIs kind ts = true
  · obtain ⟨t, rest, rfl, ht⟩ := nextIs_iff.1 hnext
    rw [if_pos hnext]
    exact .cons ht (hthen t rest rfl ht) hkind
  · rwa [if_neg hnext]

end Meets

/-! ## Beginnings of expressions

A stretch of tokens opens a kind of phrase when further tokens make it one. So each rule of the grammar
gives a way to open its conclusion: the parts in front are complete and the part that broke off is
opened itself. -/

def Opens {α : Type} (phrase : α → Phrase) (us : List Token) : Prop := ∃ vs a, Derives (phrase a) (us ++ vs)

theorem Opens.extend {α : Type} {phrase : α → Phrase} {P : Prop} (h : Opens phrase us)
    (hrule : ∀ a ws, Derives (phrase a) (us ++ ws) → P) : P :=
  h.elim fun ws h => h.elim fun a h => hrule a ws h

def someName : Token := ⟨.identifier, "x", .start⟩

def someToken (kind : Kind) : Token := ⟨kind, "", .start⟩

theorem someToken_kind : (someToken kind).kind = kind := rfl

theorem derives_level_of_signed {e : Expr} (hk : k ≤ tightest) (h : Derives (.signed e) us) :
    Derives (.level k e) us := by
  obtain ⟨d, hd⟩ := Nat.exists_eq_add_of_le hk
  induction d generalizing k with
  | zero =>
    obtain rfl : k = tightest := by omega
    exact .signed h
  | succ d ih => exact .tighter (by omega) (ih (by omega) (by omega))

theorem derives_level_of_primary {e : Expr} (hk : k ≤ tightest) (h : Derives (.primary e) us) :
    Derives (.level k e) us :=
  derives_level_of_signed hk (.applied (.primary h))

theorem opens_primary_nil : Opens .primary [] := ⟨[someName], _, .name rfl⟩

/-! ## The functions for expressions -/

/-- What the functions for expressions answer with budget `n`. A loop is told what its left operand
derives, and its answer is about that operand and the tokens it adds. -/
structure ExpressionsMeet (n : Nat) : Prop where
  binary : ∀ {k : Nat} (ts : List Token), k ≤ tightest →
    Meets (n < 16 * ts.length + (9 - k)) (fun us e rest => Derives (.level k e) us ∧ Stops k rest)
      (Opens (.level k)) ts (Parser.binary n (levels.drop k) ts)
  binaryRest : ∀ {k : Nat} {left : Expr} {ws : List Token} (ts : List Token), k < tightest →
    Derives (.level k left) ws → Stops (k + 1) ts →
    Meets (n < 16 * ts.length + 1)
      (fun us e rest => Derives (.level k e) (ws ++ us) ∧ Stops k rest)
      (fun us => Opens (.level k) (ws ++ us)) ts
      (Parser.binaryRest n (levelAt k) (levels.drop (k + 1)) left ts)
  unary : ∀ ts : List Token,
    Meets (n < 16 * ts.length + 2)
      (fun us e rest => Derives (.signed e) us ∧ Stops tightest rest) (Opens .signed) ts
      (Parser.unary n ts)
  trailers : ∀ {target : Expr} {ws : List Token} (ts : List Token), Derives (.applied target) ws →
    Meets (n < 16 * ts.length + 1)
      (fun us e rest => Derives (.applied e) (ws ++ us) ∧ Stops tightest rest)
      (fun us => Opens .applied (ws ++ us)) ts (Parser.trailers n target ts)
  primary : ∀ ts : List Token,
    Meets (n < 16 * ts.length + 1) (fun us e _ => Derives (.primary e) us) (Opens .primary) ts
      (Parser.primary n ts)
  items : ∀ ts : List Token,
    Meets (n < 16 * ts.length + 10) (fun us es _ => Derives (.items es) us) (Opens .items) ts
      (Parser.items n ts)

namespace ExpressionsMeet

variable {ws : List Token} {n : Nat}

theorem binary_succ (ih : ExpressionsMeet n) {k : Nat} (ts : List Token) (hk : k ≤ tightest) :
    Meets (n + 1 < 16 * ts.length + (9 - k))
      (fun us e rest => Derives (.level k e) us ∧ Stops k rest) (Opens (.level k)) ts
      (Parser.binary (n + 1) (levels.drop k) ts) := by
  obtain rfl | hlt := Nat.eq_or_lt_of_le hk
  · rw [levels_drop_tightest, Parser.binary]
    refine (ih.unary ts).imp (by simp only [tightest]; omega) ?_ fun us ho =>
      ho.extend fun _ _ h => begun (.signed h) (by simp)
    rintro us e rest - ⟨he, hstop⟩
    exact ⟨.signed he, hstop⟩
  · rw [levels_drop hlt, Parser.binary]
    refine (ih.binary ts hlt).andThen (fun h => begun (.tighter hlt h) (by simp)) ?_
      (by simp only [tightest] at hlt; omega)
    rintro us left rest rfl ⟨hleft, hstop⟩
    refine (ih.binaryRest rest hlt (.tighter hlt hleft) hstop).short_imp ?_
    have := hleft.length_pos
    grind

theorem binaryRest_succ (ih : ExpressionsMeet n) {k : Nat} {left : Expr} (ts : List Token)
    (hk : k < tightest) (hleft : Derives (.level k left) ws) (hstop : Stops (k + 1) ts) :
    Meets (n + 1 < 16 * ts.length + 1)
      (fun us e rest => Derives (.level k e) (ws ++ us) ∧ Stops k rest)
      (fun us => Opens (.level k) (ws ++ us)) ts
      (Parser.binaryRest (n + 1) (levelAt k) (levels.drop (k + 1)) left ts) := by
  match ts with
  | [] =>
    rw [Parser.binaryRest]
    exact .pure ⟨by rwa [append_nil], stops_nil k⟩
  | t :: ts =>
    rw [Parser.binaryRest]
    cases hl : (levelAt k).lookup t.kind with
    | none =>
      refine .pure ⟨by rwa [append_nil], hstop.of_succ ?_⟩
      intro u hu op
      obtain rfl : t = u := by simpa using hu
      exact lookup_levelAt_none.1 hl op
    | some op =>
      have hop := lookup_levelAt.1 hl
      refine .cons rfl ((ih.binary ts hk).andThen
        (fun h => begun (.operator hleft hop h) (by simp)) ?_ (by grind)) (bne_iff_ne.2 hop.usable.ne_end)
      rintro us right rest rfl ⟨hright, hstop⟩
      -- The loop goes on with the left operand grown by the operator and its right operand.
      refine (ih.binaryRest rest hk (.operator hleft hop hright) hstop).imp ?_ ?_ ?_
      · grind
      · rintro vs e rest' - ⟨he, hstop⟩
        exact ⟨by simpa using he, hstop⟩
      · intro vs ho
        simpa using ho

theorem sign_succ (ih : ExpressionsMeet n) {op : UnaryOp} {t : Token} (ts : List Token)
    (hop : PrefixOperator t.kind op) :
    Meets (n + 1 < 16 * (t :: ts).length + 2)
      (fun us e rest => Derives (.signed e) us ∧ Stops tightest rest) (Opens .signed) (t :: ts)
      (do let (operand, rest) ← Parser.unary n ts; return (.unary op operand, rest)) := by
  refine .cons rfl ((ih.unary ts).andThen (fun h => begun (.sign hop h) (by simp)) ?_ (by grind))
    (bne_iff_ne.2 hop.usable.ne_end)
  rintro us e rest - ⟨he, hstop⟩
  exact .pure ⟨by simpa using Derives.sign hop he, hstop⟩

theorem unary_succ (ih : ExpressionsMeet n) (ts : List Token) :
    Meets (n + 1 < 16 * ts.length + 2)
      (fun us e rest => Derives (.signed e) us ∧ Stops tightest rest) (Opens .signed) ts
      (Parser.unary (n + 1) ts) := by
  rw [Parser.unary.eq_def]
  match ts with
  | [] => exact ⟨noEnd_nil, opens_primary_nil.extend fun _ _ h => begun (.applied (.primary h)) (by simp)⟩
  | t :: ts =>
    dsimp only
    split
    next hkind => exact ih.sign_succ ts (hkind ▸ .not)
    next hkind => exact ih.sign_succ ts (hkind ▸ .negate)
    next =>
      refine (ih.primary (t :: ts)).andThen (fun h => begun (.applied (.primary h)) (by simp)) ?_ (by grind)
      rintro us target rest hts htarget
      refine (ih.trailers rest (.primary htarget)).imp ?_ ?_ fun vs ho =>
        ho.extend fun _ _ h => begun (.applied h) (by simp)
      · have := htarget.length_pos
        rw [hts, length_append]
        omega
      · rintro vs e rest' - ⟨he, hstop⟩
        exact ⟨.applied he, hstop⟩

theorem trailers_after (ih : ExpressionsMeet n) {e : Expr} {us rest : List Token} {size : Nat}
    {add : List Token → List Token} (he : Derives (.applied e) (ws ++ us))
    (hadd : ∀ vs, add vs = us ++ vs) (hsize : rest.length < size) :
    Meets (n + 1 < 16 * size + 1)
      (fun vs e rest => Derives (.applied e) (ws ++ add vs) ∧ Stops tightest rest)
      (fun vs => Opens .applied (ws ++ add vs)) rest (Parser.trailers n e rest) := by
  refine (ih.trailers rest he).imp (by omega) ?_ ?_
  · rintro vs e rest' - ⟨he, hstop⟩
    rw [hadd, ← append_assoc]
    exact ⟨he, hstop⟩
  · intro vs ho
    rwa [hadd, ← append_assoc]

theorem trailers_succ (ih : ExpressionsMeet n) {target : Expr} (ts : List Token)
    (htarget : Derives (.applied target) ws) :
    Meets (n + 1 < 16 * ts.length + 1)
      (fun us e rest => Derives (.applied e) (ws ++ us) ∧ Stops tightest rest)
      (fun us => Opens .applied (ws ++ us)) ts (Parser.trailers (n + 1) target ts) := by
  match ts with
  | [] =>
    rw [Parser.trailers]
    exact .pure ⟨by rwa [append_nil], stops_nil _⟩
  | t :: ts =>
    rw [Parser.trailers]
    split
    next hkind =>
      refine .cons hkind ?_ rfl
      refine .ifNext ?_ ?_ rfl
      · rintro u rest rfl hu
        exact ih.trailers_after (.callNothing htarget hkind hu) (fun _ => rfl) (by grind)
      · refine (ih.items ts).andThen (fun h => begun (.call htarget hkind h someToken_kind) (by simp)) ?_
          (by grind)
        rintro us es rest rfl hes
        refine .expect (begun (.call htarget hkind hes someToken_kind) (by simp)) ?_ rfl
        rintro u rest' rfl hu
        exact ih.trailers_after (.call htarget hkind hes hu) (by simp) (by grind)
    next hkind =>
      refine .cons hkind ?_ rfl
      refine .expect (begun (.field htarget hkind someToken_kind) (by simp)) ?_ rfl
      rintro u rest rfl hu
      exact ih.trailers_after (.field htarget hkind hu) (fun _ => rfl) (by grind)
    next hkind =>
      refine .cons hkind ?_ rfl
      refine (ih.binary ts (Nat.zero_le _)).andThen
        (fun h => begun (.index htarget hkind h someToken_kind) (by simp)) ?_ (by grind)
      rintro us i rest rfl ⟨hi, -⟩
      refine .expect (begun (.index htarget hkind hi someToken_kind) (by simp)) ?_ rfl
      rintro u rest' rfl hu
      exact ih.trailers_after (.index htarget hkind hi hu) (by simp) (by grind)
    next hparen hdot hbracket =>
      refine .pure ⟨by rwa [append_nil], ?_⟩
      rw [stops_cons]
      rintro (⟨j, op, hj, hop⟩ | htr)
      · exact absurd hop.lt_tightest (by omega)
      · generalize t.kind = kind at htr hparen hdot hbracket
        cases htr <;> contradiction

theorem primary_succ (ih : ExpressionsMeet n) (ts : List Token) :
    Meets (n + 1 < 16 * ts.length + 1) (fun us e _ => Derives (.primary e) us) (Opens .primary) ts
      (Parser.primary (n + 1) ts) := by
  match ts with
  | [] =>
    rw [Parser.primary]
    exact ⟨noEnd_nil, opens_primary_nil⟩
  | t :: ts =>
    rw [Parser.primary]
    split
    next hkind =>
      cases hnumber : numberLiteral t.value with
      | ok v => exact .single hkind (.number hkind hnumber) rfl
      | error e => exact ⟨t, mem_cons_self, hkind, hnumber⟩
    next hkind => exact .single hkind (.text hkind) rfl
    next hkind => exact .single hkind (.true hkind) rfl
    next hkind => exact .single hkind (.false hkind) rfl
    next hkind => exact .single hkind (.name hkind) rfl
    next hkind => exact .single hkind (.this hkind) rfl
    next hkind =>
      refine .cons hkind ?_ rfl
      refine (ih.binary ts (Nat.zero_le _)).andThen
        (fun h => begun (.group hkind h someToken_kind) (by simp)) ?_ (by grind)
      rintro us e rest rfl ⟨he, -⟩
      refine .expect (begun (.group hkind he someToken_kind) (by simp)) ?_ rfl
      rintro u rest' rfl hu
      exact .pure (.group hkind he hu)
    next hkind =>
      refine .cons hkind ?_ rfl
      refine .ifNext ?_ ?_ rfl
      · rintro u rest rfl hu
        exact .pure (.listNothing hkind hu)
      · refine (ih.items ts).andThen (fun h => begun (.list hkind h someToken_kind) (by simp)) ?_ (by grind)
        rintro us es rest rfl hes
        refine .expect (begun (.list hkind hes someToken_kind) (by simp)) ?_ rfl
        rintro u rest' rfl hu
        exact .pure (.list hkind hes hu)
    next => exact .reject opens_primary_nil

theorem items_succ (ih : ExpressionsMeet n) (ts : List Token) :
    Meets (n + 1 < 16 * ts.length + 10) (fun us es _ => Derives (.items es) us) (Opens .items) ts
      (Parser.items (n + 1) ts) := by
  rw [Parser.items]
  refine (ih.binary ts (Nat.zero_le _)).andThen (fun h => begun (.one h) (by simp)) ?_ (by grind)
  rintro us e rest rfl ⟨he, -⟩
  refine .ifNext ?_ ?_ rfl
  · rintro t rest' rfl ht
    refine (ih.items rest').andThen (fun h => begun (.more he ht h) (by simp)) ?_ (by grind)
    rintro vs es rest'' rfl hes
    exact .pure (by simpa using Derives.more he ht hes)
  · exact .pure (by simpa using Derives.one he)

end ExpressionsMeet

/-- **What the functions for expressions answer**, with any budget. -/
theorem expressionsMeet (n : Nat) : ExpressionsMeet n := by
  induction n with
  | zero =>
    refine ⟨?_, ?_, ?_, ?_, ?_, ?_⟩
    · intro k ts hk
      rw [Parser.binary]
      exact Nat.lt_of_lt_of_le (by simp only [tightest] at hk; omega) (Nat.le_add_left _ _)
    · intro k left ws ts _ _ _
      rw [Parser.binaryRest]
      exact Nat.succ_pos _
    · intro ts
      rw [Parser.unary]
      exact Nat.succ_pos _
    · intro target ws ts _
      rw [Parser.trailers]
      exact Nat.succ_pos _
    · intro ts
      rw [Parser.primary]
      exact Nat.succ_pos _
    · intro ts
      rw [Parser.items]
      exact Nat.succ_pos _
  | succ n ih =>
    exact ⟨ih.binary_succ, ih.binaryRest_succ, ih.unary_succ, ih.trailers_succ, ih.primary_succ,
      ih.items_succ⟩

end ScriptWorkbench.Parser
