/-
What the parser can answer on statements, blocks, functions and classes: a part that was read has its tokens
form that part, and the tokens before a rejected one are the beginning of such a part.
-/
import ScriptWorkbench.Proofs.Outcome

namespace ScriptWorkbench.Parser

open Ast Token Grammar

variable {α : Type} {part : α → Part} {a : α} {e : Expr} {name t : Token} {us vs : List Token}

/-! ## Beginnings of statements -/

def Begins {α : Type} (part : α → Part) (us : List Token) : Prop := ∃ vs a, Forms (part a) (us ++ vs)

theorem Begins.extend {P : Prop} (h : Begins part us) (hrule : ∀ a ws, Forms (part a) (us ++ ws) → P) : P :=
  h.elim fun ws h => h.elim fun a h => hrule a ws h

theorem Begins.left (h : Begins part (us ++ vs)) : Begins part us :=
  h.extend fun _ _ h => begun h (by simp)

theorem expression_someName : Expression (.name someName.value) [someName] :=
  derives_level_of_primary (Nat.zero_le _) (.name rfl)

def emptyBlock : List Token := [someToken .leftBrace, someToken .rightBrace]

theorem forms_emptyBlock : Block [] emptyBlock := .block rfl (.close rfl)

def OpensSource (us : List Token) : Prop := ∃ vs e, Source e (us ++ vs)

/-! ## Statements -/

theorem expression_meets (n : Nat) (ts : List Token) :
    Meets (n < 16 * ts.length + 9) (fun us e rest => Expression e us ∧ Stops 0 rest)
      (Opens (.level 0)) ts (expression n ts) :=
  (expressionsMeet n).binary ts (Nat.zero_le _)

theorem closedExpression_meets (n : Nat) (want : Want) (ts : List Token) :
    Meets (n < 16 * ts.length + 9)
      (fun us e _ => ∃ vs semi, us = vs ++ [semi] ∧ Expression e vs ∧ semi.kind = .semicolon)
      (Opens (.level 0)) ts (closedExpression n want ts) := by
  refine Meets.bind (expression_meets n ts) (fun us ho => ho) ?_
  rintro us e rest rfl ⟨he, -⟩
  refine .expect (begun he (by simp)) ?_ rfl
  rintro semi rest' rfl hsemi
  exact .pure ⟨us, semi, rfl, he, hsemi⟩

theorem loopSource_meets (n : Nat) (ts : List Token) :
    Meets (n < 16 * ts.length + 9) (fun us e _ => Source e us) OpensSource ts (loopSource n ts) := by
  refine (expression_meets n ts).andThen (fun h => ⟨_, _, .value h⟩) ?_ (by grind)
  rintro us first rest rfl ⟨hfirst, -⟩
  refine .ifNext ?_ ?_ rfl
  · rintro t rest' rfl ht
    refine (expression_meets n rest').andThen
      (fun h => ⟨_, _, by simpa using Source.range hfirst ht h⟩) ?_ (by grind)
    rintro vs last rest'' rfl ⟨hlast, -⟩
    exact .pure (by simpa using Source.range hfirst ht hlast)
  · exact .pure (by simpa using Source.value hfirst)

theorem caughtName_spec (ts : List Token) :
    ∃ us, ts = us ++ (caughtName ts).2 ∧ Caught (caughtName ts).1 us := by
  match ts with
  | [] => exact ⟨[], rfl, .nothing⟩
  | t :: ts =>
    rw [caughtName]
    by_cases h : t.kind = .identifier
    · rw [if_pos h]
      exact ⟨[t], rfl, .error h⟩
    · rw [if_neg h]
      exact ⟨[], rfl, .nothing⟩

theorem startsAssignment_iff {ts : List Token} :
    startsAssignment ts = true ↔
      ∃ t u rest, ts = t :: u :: rest ∧ t.kind = .identifier ∧ u.kind = .equal := by
  match ts with
  | [] => simp [startsAssignment]
  | [t] => simp [startsAssignment]
  | t :: u :: rest =>
    simp only [startsAssignment, Bool.and_eq_true, decide_eq_true_eq]
    constructor
    · rintro ⟨ht, hu⟩
      exact ⟨t, u, rest, rfl, ht, hu⟩
    · rintro ⟨t', u', rest', heq, ht, hu⟩
      cases heq
      exact ⟨ht, hu⟩

abbrev MeetsStatement (n : Nat) (ts : List Token) : Except Failure (Read Stmt) → Prop :=
  Meets (n < 16 * ts.length + 10) (fun us s _ => Statement s us) (Begins .statement) ts

/-- What the functions for statements answer with budget `n`. -/
structure StatementsMeet (n : Nat) : Prop where
  statement : ∀ ts : List Token, MeetsStatement n ts (Parser.statement n ts)
  alternative : ∀ ts : List Token,
    Meets (n < 16 * ts.length + 1) (fun us b _ => Forms (.otherwise b) us) (Begins .otherwise) ts
      (Parser.alternative n ts)
  block : ∀ ts : List Token,
    Meets (n < 16 * ts.length + 1) (fun us ss _ => Block ss us) (Begins .block) ts (Parser.block n ts)
  blockRest : ∀ ts : List Token,
    Meets (n < 16 * ts.length + 11) (fun us ss _ => Forms (.closing ss) us) (Begins .closing) ts
      (Parser.blockRest n ts)

namespace StatementsMeet

variable {n : Nat}

theorem letVar_succ (n : Nat) (ts : List Token) (ht : t.kind = .letWord) :
    MeetsStatement (n + 1) (t :: ts)
      (do
        let (name, ts) ← expect .identifier .letName ts
        let (_, ts) ← expect .equal .letEqual ts
        let (value, ts) ← closedExpression n .letEnd ts
        return (.letVar name.value value, ts)) := by
  -- Before the name, before the equals sign and after it: a shorter beginning of the same thing.
  have hopen : ∀ name : Token, name.kind = .identifier → Begins .statement [t, name] := fun name hname =>
    begun (.letVar ht hname someToken_kind expression_someName someToken_kind) (by simp)
  refine .cons ht (.expect (hopen someName rfl).left ?_ rfl) rfl
  rintro name ts rfl hname
  refine .expect (hopen name hname) ?_ rfl
  rintro eq ts rfl heq
  refine (closedExpression_meets n _ ts).andThen
    (fun h => begun (.letVar ht hname heq h someToken_kind) (by simp)) ?_ (by grind)
  rintro _ e rest rfl ⟨us, semi, rfl, he, hsemi⟩
  exact .pure (by simpa using Forms.letVar ht hname heq he hsemi)

theorem returning_succ (n : Nat) (ts : List Token) (ht : t.kind = .returnWord) :
    MeetsStatement (n + 1) (t :: ts)
      (if nextIs .semicolon ts then .ok (.result none, ts.drop 1)
      else do
        let (value, ts) ← closedExpression n .returnEnd ts
        return (.result (some value), ts)) := by
  refine .cons ht ?_ rfl
  refine .ifNext ?_ ?_ rfl
  · rintro semi rest rfl hsemi
    exact .pure (.returnNothing ht hsemi)
  · refine (closedExpression_meets n _ ts).andThen
      (fun h => begun (.returnValue ht h someToken_kind) (by simp)) ?_ (by grind)
    rintro _ e rest rfl ⟨us, semi, rfl, he, hsemi⟩
    exact .pure (by simpa using Forms.returnValue ht he hsemi)

theorem cond_succ (ih : StatementsMeet n) (ts : List Token) (ht : t.kind = .ifWord) :
    MeetsStatement (n + 1) (t :: ts)
      (do
        let (test, ts) ← expression n ts
        let (body, ts) ← Parser.block n ts
        let (alternative, ts) ← Parser.alternative n ts
        return (.cond test (.block body) alternative, ts)) := by
  refine .cons ht ?_ rfl
  refine (expression_meets n ts).andThen (fun h => begun (.cond ht h forms_emptyBlock .nothing) (by simp)) ?_
    (by grind)
  rintro us e ts rfl ⟨he, -⟩
  refine (ih.block ts).andThen (fun h => begun (.cond ht he h .nothing) (by simp)) ?_ (by grind)
  rintro vs ss ts rfl hss
  refine (ih.alternative ts).andThen (fun h => begun (.cond ht he hss h) (by simp)) ?_ (by grind)
  rintro ws b rest rfl hb
  exact .pure (by simpa using Forms.cond ht he hss hb)

theorem forEach_succ (ih : StatementsMeet n) (ts : List Token) (ht : t.kind = .forWord) :
    MeetsStatement (n + 1) (t :: ts)
      (do
        let (target, ts) ← expect .identifier .loopVariable ts
        let (_, ts) ← expect .inWord .loopIn ts
        let (source, ts) ← loopSource n ts
        let (body, ts) ← Parser.block n ts
        return (.forEach target.value source (.block body), ts)) := by
  have hopen : ∀ name : Token, name.kind = .identifier → Begins .statement [t, name] := fun name hname =>
    begun (.forEach ht hname someToken_kind (.value expression_someName) forms_emptyBlock) (by simp)
  refine .cons ht (.expect (hopen someName rfl).left ?_ rfl) rfl
  rintro name ts rfl hname
  refine .expect (hopen name hname) ?_ rfl
  rintro within ts rfl hin
  refine (loopSource_meets n ts).andThen
    (fun h => begun (.forEach ht hname hin h forms_emptyBlock) (by simp)) ?_ (by grind)
  rintro us e ts rfl he
  refine (ih.block ts).andThen (fun h => begun (.forEach ht hname hin he h) (by simp)) ?_ (by grind)
  rintro vs ss rest rfl hss
  exact .pure (by simpa using Forms.forEach ht hname hin he hss)

theorem loop_succ (ih : StatementsMeet n) (ts : List Token) (ht : t.kind = .whileWord) :
    MeetsStatement (n + 1) (t :: ts)
      (do
        let (test, ts) ← expression n ts
        let (body, ts) ← Parser.block n ts
        return (.loop test (.block body), ts)) := by
  refine .cons ht ?_ rfl
  refine (expression_meets n ts).andThen (fun h => begun (.loop ht h forms_emptyBlock) (by simp)) ?_ (by grind)
  rintro us e ts rfl ⟨he, -⟩
  refine (ih.block ts).andThen (fun h => begun (.loop ht he h) (by simp)) ?_ (by grind)
  rintro vs ss rest rfl hss
  exact .pure (by simpa using Forms.loop ht he hss)

theorem guarded_succ (ih : StatementsMeet n) (ts : List Token) (ht : t.kind = .tryWord) :
    MeetsStatement (n + 1) (t :: ts)
      (do
        let (body, ts) ← Parser.block n ts
        let (_, ts) ← expect .catchWord .catchWord ts
        let (name, ts) := caughtName ts
        let (handler, ts) ← Parser.block n ts
        return (.guarded (.block body) name (.block handler), ts)) := by
  refine .cons ht ?_ rfl
  refine (ih.block ts).andThen
    (fun h => begun (.guarded ht h someToken_kind .nothing forms_emptyBlock) (by simp)) ?_ (by grind)
  rintro us ss ts rfl hss
  refine .expect (begun (.guarded ht hss someToken_kind .nothing forms_emptyBlock) (by simp)) ?_ rfl
  rintro u ts rfl hu
  obtain ⟨vs, hts, hname⟩ := caughtName_spec ts
  dsimp only
  revert hts hname
  generalize caughtName ts = named
  obtain ⟨name, ts⟩ := named
  rintro rfl hname
  refine Meets.prepend hname.noEnd ?_
  refine (ih.block ts).andThen (fun h => begun (.guarded ht hss hu hname h) (by simp)) ?_ (by grind)
  rintro ws ss' rest rfl hss'
  exact .pure (by simpa using Forms.guarded ht hss hu hname hss')

theorem simple_succ (n : Nat) (ts : List Token) :
    MeetsStatement (n + 1) (t :: ts)
      (if startsAssignment (t :: ts) then do
        let (value, ts) ← closedExpression n .assignEnd (ts.drop 1)
        return (.assign t.value value, ts)
      else do
        let (value, ts) ← closedExpression n .statementEnd (t :: ts)
        return (.expr value, ts)) := by
  by_cases hassign : startsAssignment (t :: ts) = true
  · rw [if_pos hassign]
    obtain ⟨name, eq, rest, heq, hname, hequal⟩ := startsAssignment_iff.1 hassign
    cases heq
    refine .cons hname (.cons hequal ?_ rfl) rfl
    refine (closedExpression_meets n _ rest).andThen
      (fun h => begun (.assign hname hequal h someToken_kind) (by simp)) ?_ (by grind)
    rintro _ e rest rfl ⟨us, semi, rfl, he, hsemi⟩
    exact .pure (by simpa using Forms.assign hname hequal he hsemi)
  · rw [if_neg hassign]
    refine (closedExpression_meets n _ (t :: ts)).andThen
      (fun h => begun (.expr h someToken_kind) (by simp)) ?_ (by grind)
    rintro _ e rest - ⟨us, semi, rfl, he, hsemi⟩
    exact .pure (by simpa using Forms.expr he hsemi)

theorem statement_succ (ih : StatementsMeet n) (ts : List Token) :
    MeetsStatement (n + 1) ts (Parser.statement (n + 1) ts) := by
  match ts with
  | [] =>
    rw [Parser.statement]
    exact ⟨noEnd_nil, begun (.expr expression_someName someToken_kind) (by simp)⟩
  | t :: ts =>
    rw [Parser.statement]
    split
    next ht => exact letVar_succ n ts ht
    next ht => exact returning_succ n ts ht
    next ht => exact ih.cond_succ ts ht
    next ht => exact ih.forEach_succ ts ht
    next ht => exact ih.loop_succ ts ht
    next ht => exact ih.guarded_succ ts ht
    next => exact simple_succ n ts

theorem alternative_succ (ih : StatementsMeet n) (ts : List Token) :
    Meets (n + 1 < 16 * ts.length + 1) (fun us b _ => Forms (.otherwise b) us)
      (Begins .otherwise) ts (Parser.alternative (n + 1) ts) := by
  match ts with
  | [] =>
    rw [Parser.alternative]
    exact .pure .nothing
  | t :: ts =>
    rw [Parser.alternative]
    by_cases ht : t.kind = .elseWord
    · rw [if_pos ht]
      refine .cons ht ?_ rfl
      refine .ifNext ?_ ?_ rfl
      · rintro u rest rfl hu
        refine (ih.statement rest).andThen (fun h => begun (.elseIf ht hu h) (by simp)) ?_ (by grind)
        rintro us s rest rfl hs
        exact .pure (by simpa using Forms.elseIf ht hu hs)
      · refine (ih.block ts).andThen (fun h => begun (.elseBlock ht h) (by simp)) ?_ (by grind)
        rintro us ss rest rfl hss
        exact .pure (by simpa using Forms.elseBlock ht hss)
    · rw [if_neg ht]
      exact .pure .nothing

theorem block_succ (ih : StatementsMeet n) (ts : List Token) :
    Meets (n + 1 < 16 * ts.length + 1) (fun us ss _ => Block ss us) (Begins .block) ts
      (Parser.block (n + 1) ts) := by
  rw [Parser.block]
  refine .expect (begun forms_emptyBlock (by simp)) ?_ rfl
  rintro t ts rfl ht
  refine (ih.blockRest ts).imp (by grind) ?_
    (fun us ho => ho.extend fun _ _ h => begun (.block ht h) (by simp))
  rintro us ss rest - hss
  exact .block ht hss

theorem blockRest_succ (ih : StatementsMeet n) (ts : List Token) :
    Meets (n + 1 < 16 * ts.length + 11) (fun us ss _ => Forms (.closing ss) us)
      (Begins .closing) ts (Parser.blockRest (n + 1) ts) := by
  rw [Parser.blockRest]
  refine .ifNext ?_ ?_ rfl
  · rintro t rest rfl ht
    exact .pure (.close ht)
  · refine (ih.statement ts).andThen (fun h => begun (.cons h (.close someToken_kind)) (by simp)) ?_
      (by grind)
    rintro us s rest rfl hs
    have hpos := hs.statement_length_pos
    refine (ih.blockRest rest).andThen (fun h => begun (.cons hs h) (by simp)) ?_ (by grind)
    rintro vs ss rest' rfl hss
    exact .pure (by simpa using Forms.cons hs hss)

end StatementsMeet

/-- **What the functions for statements answer**, with any budget. -/
theorem statementsMeet (n : Nat) : StatementsMeet n := by
  induction n with
  | zero =>
    constructor <;> exact fun ts => Nat.succ_pos _
  | succ n ih => exact ⟨ih.statement_succ, ih.alternative_succ, ih.block_succ, ih.blockRest_succ⟩

/-! ## Functions and classes -/

def BeginsItem (us : List Token) : Prop := ∃ vs item, Makes item (us ++ vs)

def OpensNames (us : List Token) : Prop := ∃ vs ns, Names ns (us ++ vs)

theorem opensNames_nil : OpensNames [] := ⟨[someName], _, .one rfl⟩

theorem parameterNames_meets (n : Nat) (ts : List Token) :
    Meets (n < ts.length + 1) (fun us ns _ => Names ns us) OpensNames ts (parameterNames n ts) := by
  induction n generalizing ts with
  | zero =>
    rw [parameterNames]
    exact Nat.succ_pos _
  | succ n ih =>
    rw [parameterNames]
    refine .expect opensNames_nil ?_ rfl
    rintro t ts rfl ht
    refine .ifNext ?_ ?_ rfl
    · rintro u rest rfl hu
      refine (ih rest).andThen (fun h => ⟨_, _, .more ht hu h⟩) ?_ (by grind)
      rintro us ns rest' rfl hns
      exact .pure (by simpa using Names.more ht hu hns)
    · exact .pure (.one ht)

theorem parameters_meets (n : Nat) (ts : List Token) :
    Meets (n < ts.length + 1) (fun us ns _ => Parameters ns us) OpensNames ts (parameters n ts) := by
  rw [parameters]
  by_cases hnext : nextIs .rightParen ts = true
  · rw [if_pos hnext]
    exact .pure .nothing
  · rw [if_neg hnext]
    refine (parameterNames_meets n ts).imp id ?_ (fun us ho => ho)
    rintro us ns rest - hns
    exact .names hns

theorem function_meets (n : Nat) (ts : List Token) (ht : t.kind = .funcWord) :
    Meets (n < 16 * ts.length + 1) (fun us f _ => Makes (.function f) (t :: us))
      (fun us => BeginsItem (t :: us)) ts (function n ts) := by
  rw [function]
  refine .expect (begun (.function ht someToken_kind someToken_kind .nothing
    someToken_kind forms_emptyBlock) (by simp)) ?_ rfl
  rintro name ts rfl hname
  refine .expect (begun (.function ht hname someToken_kind .nothing
    someToken_kind forms_emptyBlock) (by simp)) ?_ rfl
  rintro l ts rfl hl
  refine (parameters_meets n ts).andThen (fun h => begun
    (.function ht hname hl (.names h) someToken_kind forms_emptyBlock) (by simp)) ?_ (by grind)
  rintro us ns ts rfl hns
  refine .expect (begun (.function ht hname hl hns someToken_kind forms_emptyBlock) (by simp)) ?_ rfl
  rintro r ts rfl hr
  refine ((statementsMeet n).block ts).andThen
    (fun h => begun (.function ht hname hl hns hr h) (by simp)) ?_ (by grind)
  rintro vs ss rest rfl hss
  exact .pure (by simpa using Makes.function ht hname hl hns hr hss)

theorem mainBlock_meets (n : Nat) (ts : List Token) (ht : t.kind = .mainWord) :
    Meets (n < 16 * ts.length + 1) (fun us f _ => Makes (.function f) (t :: us))
      (fun us => BeginsItem (t :: us)) ts (mainBlock n ts) := by
  rw [mainBlock]
  refine ((statementsMeet n).block ts).andThen (fun h => begun (.mainBlock ht h) (by simp)) ?_ (by grind)
  rintro us ss rest rfl hss
  exact .pure (by simpa using Makes.mainBlock ht hss)

theorem superclass_meets (ts : List Token) :
    Meets False (fun us parent _ => Parent parent us) (fun us => ∃ vs parent, Parent parent (us ++ vs))
      ts (superclass ts) := by
  rw [superclass]
  refine .ifNext ?_ (.pure .nothing) rfl
  rintro t rest rfl ht
  refine .expect ⟨[someName], _, .extending ht rfl⟩ ?_ rfl
  rintro u rest' - hu
  exact .pure (.extending ht hu)

theorem classDeclaration_meets (n : Nat) (ts : List Token) (ht : t.kind = .classWord) :
    Meets (n < 16 * ts.length + 1) (fun us c _ => Makes (.declaration c) (t :: us))
      (fun us => BeginsItem (t :: us)) ts (classDeclaration n ts) := by
  refine .expect (begun (.declaration ht someToken_kind .nothing forms_emptyBlock) (by simp)) ?_ rfl
  rintro name ts rfl hname
  refine (superclass_meets ts).andThen
    (fun h => begun (.declaration ht hname h forms_emptyBlock) (by simp)) ?_ (by grind)
  rintro us parent ts rfl hparent
  refine ((statementsMeet n).block ts).andThen
    (fun h => begun (.declaration ht hname hparent h) (by simp)) ?_ (by grind)
  rintro vs ss rest rfl hss
  exact .pure (by simpa using Makes.declaration ht hname hparent hss)

/-! ## Items -/

def item (n : Nat) : List Token → Except Failure (Read Item)
  | [] => .error .ranOff
  | t :: ts =>
    match t.kind with
    | .importWord => .error (.unexpected .moduleName t)
    | .funcWord => function n ts >>= fun x => .ok (.function x.1, x.2)
    | .mainWord => mainBlock n ts >>= fun x => .ok (.function x.1, x.2)
    | .classWord => classDeclaration n ts >>= fun x => .ok (.declaration x.1, x.2)
    | _ => statement n (t :: ts) >>= fun x => .ok (.statement x.1, x.2)

/-- What a failure within an item comes to at the top level; `loose` says that the item is a
statement. -/
def itemFailure (loose : Bool) : Failure → Except Failure Program
  | .unexpected want found =>
    if loose then if found.kind = .endOfInput then .ok ⟨[], [], []⟩ else .error (.misplaced found)
    else .error (.unexpected want found)
  | e => .error e

def isLoose (kind : Kind) : Bool := kind ∉ [.importWord, .funcWord, .mainWord, .classWord]

/-- **One step at the top level:** an item is read, and then the program behind it. -/
theorem topLevel_succ {n : Nat} (ts : List Token) (ht : t.kind ≠ .endOfInput) :
    topLevel (n + 1) (t :: ts) =
      match item n (t :: ts) with
      | .ok (i, rest) => topLevel n rest >>= fun p => .ok (i.addTo p)
      | .error e => itemFailure (isLoose t.kind) e := by
  obtain ⟨kind, value, position⟩ := t
  cases kind with
  | endOfInput => exact absurd rfl ht
  | importWord => rfl
  | funcWord =>
    rw [topLevel, item]
    cases function n ts with
    | ok x => rfl
    | error e => cases e <;> rfl
  | mainWord =>
    rw [topLevel, item]
    cases mainBlock n ts with
    | ok x => rfl
    | error e => cases e <;> rfl
  | classWord =>
    rw [topLevel, item]
    cases classDeclaration n ts with
    | ok x => rfl
    | error e => cases e <;> rfl
  | _ =>
    rw [topLevel, item]
    cases statement n _ with
    | ok x => rfl
    | error e => cases e <;> rfl

theorem beginsItem_nil : BeginsItem [] :=
  ⟨someToken .mainWord :: emptyBlock, _, .mainBlock rfl forms_emptyBlock⟩

theorem Meets.asItem {short : Prop} {ts : List Token} {opened : List Token → Prop}
    {r : Except Failure (Read α)} (wrap : α → Item) (ws : List Token)
    (h : Meets short (fun us a _ => Makes (wrap a) (ws ++ us)) opened ts r) :
    Meets short (fun us i _ => Makes i (ws ++ us)) opened ts (r >>= fun x => .ok (wrap x.1, x.2)) := by
  refine h.bind (fun _ ho => ho) fun us a rest _ hmakes => .pure ?_
  rwa [List.append_nil]

theorem item_meets (n : Nat) (ts : List Token) :
    Meets (n < 16 * ts.length + 10) (fun us i _ => Makes i us) BeginsItem ts (item n ts) := by
  match ts with
  | [] => exact ⟨noEnd_nil, beginsItem_nil⟩
  | t :: ts =>
    rw [item]
    split
    next => exact .reject beginsItem_nil
    next hkind =>
      refine .cons hkind (.asItem .function [t] ?_) rfl
      exact (function_meets n ts hkind).short_imp (by grind)
    next hkind =>
      refine .cons hkind (.asItem .function [t] ?_) rfl
      exact (mainBlock_meets n ts hkind).short_imp (by grind)
    next hkind =>
      refine .cons hkind (.asItem .declaration [t] ?_) rfl
      exact (classDeclaration_meets n ts hkind).short_imp (by grind)
    next =>
      refine .asItem .statement [] ?_
      refine ((statementsMeet n).statement (t :: ts)).imp id (fun us s _ _ hs => .statement hs) ?_
      rintro us ⟨vs, s, hs⟩
      exact ⟨vs, .statement s, .statement hs⟩

end ScriptWorkbench.Parser
