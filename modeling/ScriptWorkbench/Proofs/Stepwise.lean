/-
Readers made of single steps.

Every function of the parser looks at the kind and the text of the next token, takes it or leaves it and goes
on accordingly, or fails at it. `Stepwise` says this of a reader with a budget, and the functions of the
parser are covered once, by induction on the budget. What single steps and their sequences keep then holds of
all of them by induction on `Stepwise`.
-/
import ScriptWorkbench.Proofs.Acceptance

namespace ScriptWorkbench.Parser

open Ast Token Grammar

/-! ## Steps -/

abbrev Reader (α : Type) := Nat → List Token → Except Failure (Read α)

def number : List Token → Except Failure (Read Expr)
  | [] => .error .ranOff
  | t :: ts =>
    if t.kind = .number then
      match numberLiteral t.value with
      | .ok value => .ok (.literal value, ts)
      | .error e => .error (.badNumber e)
    else .error (.unexpected .expression t)

/-- **A reader made of single steps:** with budget `n`, it is put together from these. Where a step goes by
the next token, `taken` says whether it is taken. -/
inductive Stepwise : {α : Type} → Reader α → Nat → Prop
  | pure {α : Type} {n : Nat} (a : α) : Stepwise (fun _ ts => .ok (a, ts)) n
  | reject {α : Type} {n : Nat} (want : Want) :
      Stepwise (fun _ ts => (reject want ts : Except Failure (Read α))) n
  | number {n : Nat} : Stepwise (fun _ => number) n
  | exhausted {α : Type} {n : Nat} {f : Reader α} (h : ∀ ts, f n ts = .error .exhausted) : Stepwise f n
  | succ {α : Type} {n : Nat} {f : Reader α} (h : Stepwise (fun m => f (m + 1)) n) : Stepwise f (n + 1)
  | bind {α β : Type} {n : Nat} {f : Reader α} {g : α → Reader β} (hf : Stepwise f n)
      (hg : ∀ a, Stepwise (g a) n) : Stepwise (fun m ts => f m ts >>= fun x => g x.1 m x.2) n
  | head {α : Type} {n : Nat} {f atEnd : Reader α} {g : Kind → String → Reader α}
      (taken : Kind → String → Bool) (hend : Stepwise atEnd n) (hnil : ∀ m, f m [] = atEnd m [])
      (hg : ∀ kind value, Stepwise (g kind value) n)
      (hcons : ∀ t m ts, f m (t :: ts) =
        g t.kind t.value m (if taken t.kind t.value then ts else t :: ts)) : Stepwise f n

/-- A reader made of single steps on the lists that start with a token of this kind and text. -/
def StepwiseFrom {α : Type} (kind : Kind) (value : String) (f : Reader α) (n : Nat) : Prop :=
  ∃ (taken : Bool) (g : Reader α), Stepwise g n ∧ ∀ position m ts,
    f m (⟨kind, value, position⟩ :: ts) = g m (if taken then ts else ⟨kind, value, position⟩ :: ts)

section Steps

variable {α : Type} {n : Nat} {kind : Kind} {value : String} {f g : Reader α}

theorem Stepwise.congr (hg : Stepwise g n) (h : ∀ m ts, f m ts = g m ts) : Stepwise f n := by
  rwa [show f = g from funext fun m => funext (h m)]

theorem Stepwise.of_head (hg : Stepwise g n) (hnil : ∀ m, f m [] = g m [])
    (hcons : ∀ kind value, StepwiseFrom kind value f n) : Stepwise f n :=
  .head (fun kind value => (hcons kind value).choose) hg hnil
    (fun kind value => (hcons kind value).choose_spec.choose_spec.1)
    fun t => (hcons t.kind t.value).choose_spec.choose_spec.2 t.position

theorem StepwiseFrom.take (hg : Stepwise g n)
    (h : ∀ position m ts, f m (⟨kind, value, position⟩ :: ts) = g m ts) :
    StepwiseFrom kind value f n :=
  ⟨true, g, hg, h⟩

theorem StepwiseFrom.leave (hg : Stepwise g n) (h : ∀ position m ts,
    f m (⟨kind, value, position⟩ :: ts) = g m (⟨kind, value, position⟩ :: ts)) :
    StepwiseFrom kind value f n :=
  ⟨false, g, hg, h⟩

theorem Stepwise.ifNext (kind : Kind) (hf : Stepwise f n) (hg : Stepwise g n) :
    Stepwise (fun m ts => if nextIs kind ts = true then f m (ts.drop 1) else g m ts) n := by
  refine .of_head hg (fun _ => rfl) fun kind' value => ?_
  by_cases hkind : kind' = kind
  · refine .take hf fun position m ts => ?_
    rw [if_pos (nextIs_cons.2 hkind), List.drop_one, List.tail_cons]
  · exact .leave hg fun position m ts => if_neg fun h => hkind (nextIs_cons.1 h)

theorem Stepwise.expect (kind : Kind) (want : Want) {g : String → Reader α}
    (hg : ∀ text, Stepwise (g text) n) :
    Stepwise (fun m ts => Parser.expect kind want ts >>= fun x => g x.1.value m x.2) n := by
  refine .of_head (.reject want) (fun _ => rfl) fun kind' value => ?_
  by_cases hkind : kind' = kind
  · refine .take (hg value) fun position m ts => ?_
    rw [expect_cons hkind, ok_bind]
  · refine .leave (.reject want) fun position m ts => ?_
    rw [Parser.expect, if_neg hkind]
    rfl

end Steps

/-! ## Expressions -/

/-- The functions for expressions with budget `n` are made of single steps. -/
structure ExpressionsStepwise (n : Nat) : Prop where
  binary : ∀ lvls, Stepwise (fun m => Parser.binary m lvls) n
  binaryRest : ∀ level tighter left, Stepwise (fun m => Parser.binaryRest m level tighter left) n
  unary : Stepwise Parser.unary n
  trailers : ∀ target, Stepwise (fun m => Parser.trailers m target) n
  primary : Stepwise Parser.primary n
  items : Stepwise Parser.items n

section Expressions

variable {n : Nat}

theorem stepwise_binary (ih : ExpressionsStepwise n) (lvls : List Level) :
    Stepwise (fun m => Parser.binary m lvls) (n + 1) := by
  match lvls with
  | [] => exact .succ ih.unary
  | level :: tighter => exact .succ ((ih.binary tighter).bind fun left => ih.binaryRest level tighter left)

theorem stepwise_binaryRest (ih : ExpressionsStepwise n) (level : Level) (tighter : List Level)
    (left : Expr) : Stepwise (fun m => Parser.binaryRest m level tighter left) (n + 1) := by
  refine .succ (.of_head (.pure left) (fun _ => rfl) fun kind value => ?_)
  match hop : level.lookup kind with
  | none => exact .leave (.pure left) fun position m ts => by rw [Parser.binaryRest, hop]
  | some op =>
    refine .take ((ih.binary tighter).bind fun right =>
      ih.binaryRest level tighter (.binary left op right)) fun position m ts => ?_
    rw [Parser.binaryRest, hop]

theorem stepwise_unary (ih : ExpressionsStepwise n) : Stepwise Parser.unary (n + 1) := by
  refine .succ (.of_head (.reject .expression) (fun _ => rfl) fun kind value => ?_)
  have hoperand := ih.primary.bind fun target => ih.trailers target
  cases kind with
  | notWord => exact .take (ih.unary.bind fun e => .pure (.unary .not e)) fun _ _ _ => rfl
  | minus => exact .take (ih.unary.bind fun e => .pure (.unary .negate e)) fun _ _ _ => rfl
  | _ => exact .leave hoperand fun _ _ _ => rfl

theorem stepwise_trailers (ih : ExpressionsStepwise n) (target : Expr) :
    Stepwise (fun m => Parser.trailers m target) (n + 1) := by
  refine .succ (.of_head (.pure target) (fun _ => rfl) fun kind value => ?_)
  cases kind with
  | leftParen =>
    have hsome := ih.items.bind fun es => .expect .rightParen .closeArguments fun _ =>
      ih.trailers (.call target es)
    exact .take (.ifNext .rightParen (ih.trailers (.call target [])) hsome) fun _ _ _ => rfl
  | dot =>
    exact .take (.expect .identifier .attributeName fun field =>
      ih.trailers (.attribute target field)) fun _ _ _ => rfl
  | leftBracket =>
    exact .take ((ih.binary levels).bind fun i => .expect .rightBracket .closeIndex fun _ =>
      ih.trailers (.index target i)) fun _ _ _ => rfl
  | _ => exact .leave (.pure target) fun _ _ _ => rfl

theorem stepwise_primary (ih : ExpressionsStepwise n) : Stepwise Parser.primary (n + 1) := by
  refine .succ (.of_head (.reject .expression) (fun _ => rfl) fun kind value => ?_)
  cases kind with
  | number => exact .leave .number fun _ _ _ => rfl
  | text => exact .take (.pure (.literal (.text value))) fun _ _ _ => rfl
  | trueWord => exact .take (.pure (.literal (.truth true))) fun _ _ _ => rfl
  | falseWord => exact .take (.pure (.literal (.truth false))) fun _ _ _ => rfl
  | identifier => exact .take (.pure (.name value)) fun _ _ _ => rfl
  | thisWord => exact .take (.pure .this) fun _ _ _ => rfl
  | leftParen =>
    exact .take ((ih.binary levels).bind fun e => .expect .rightParen .closeGroup fun _ => .pure e)
      fun _ _ _ => rfl
  | leftBracket =>
    have hsome := ih.items.bind fun es => .expect .rightBracket .closeList fun _ => .pure (Expr.list es)
    exact .take (.ifNext .rightBracket (.pure (.list [])) hsome) fun _ _ _ => rfl
  | _ => exact .leave (.reject .expression) fun _ _ _ => rfl

theorem stepwise_items (ih : ExpressionsStepwise n) : Stepwise Parser.items (n + 1) :=
  .succ (.congr ((ih.binary levels).bind fun e =>
    .ifNext .comma (ih.items.bind fun es => .pure (e :: es)) (.pure [e])) fun _ _ => rfl)

end Expressions

theorem expressionsStepwise (n : Nat) : ExpressionsStepwise n := by
  induction n with
  | zero =>
    exact ⟨fun _ => .exhausted fun _ => rfl, fun _ _ _ => .exhausted fun _ => rfl,
      .exhausted fun _ => rfl, fun _ => .exhausted fun _ => rfl, .exhausted fun _ => rfl,
      .exhausted fun _ => rfl⟩
  | succ n ih =>
    exact ⟨stepwise_binary ih, stepwise_binaryRest ih, stepwise_unary ih, stepwise_trailers ih,
      stepwise_primary ih, stepwise_items ih⟩

/-! ## Statements -/

theorem stepwise_expression (n : Nat) : Stepwise expression n := (expressionsStepwise n).binary levels

theorem stepwise_closedExpression (n : Nat) (want : Want) :
    Stepwise (fun m => closedExpression m want) n :=
  .congr ((stepwise_expression n).bind fun e => .expect .semicolon want fun _ => .pure e) fun _ _ => rfl

theorem stepwise_loopSource (n : Nat) : Stepwise loopSource n :=
  .congr ((stepwise_expression n).bind fun first =>
    .ifNext .dotDot ((stepwise_expression n).bind fun last => .pure (.range first last))
      (.pure first)) fun _ _ => rfl

theorem stepwise_caughtName {n : Nat} : Stepwise (fun _ ts => .ok (caughtName ts)) n := by
  refine .of_head (.pure none) (fun _ => rfl) fun kind value => ?_
  by_cases hkind : kind = .identifier
  · exact .take (.pure (some value)) fun _ _ ts => by rw [caughtName, if_pos hkind]
  · exact .leave (.pure none) fun _ _ ts => by rw [caughtName, if_neg hkind]

theorem binary_name (value : String) (position : Position) (n : Nat) (lvls : List Level)
    (ts : List Token) : binary n lvls (⟨.identifier, value, position⟩ :: ts) =
      binary n lvls (⟨.identifier, value, .start⟩ :: ts) := by
  induction lvls generalizing n with
  | nil =>
    match n with
    | 0 | 1 | 2 | _ + 3 => rfl
  | cons level tighter ih =>
    match n with
    | 0 => rfl
    | n + 1 => rw [binary, binary, ih]

theorem stepwise_binary_name (value : String) (position : Position) (n : Nat) (lvls : List Level) :
    Stepwise (fun m ts => binary m lvls (⟨.identifier, value, position⟩ :: ts)) n := by
  have hprimary : ∀ n, Stepwise (fun m ts => primary m (⟨.identifier, value, position⟩ :: ts)) n
    | 0 => .exhausted fun _ => rfl
    | _ + 1 => .succ (.congr (.pure (.name value)) fun _ _ => rfl)
  have hunary : ∀ n, Stepwise (fun m ts => unary m (⟨.identifier, value, position⟩ :: ts)) n
    | 0 => .exhausted fun _ => rfl
    | n + 1 => .succ (.congr ((hprimary n).bind fun target =>
        (expressionsStepwise n).trailers target) fun _ _ => rfl)
  induction lvls generalizing n with
  | nil =>
    match n with
    | 0 => exact .exhausted fun _ => rfl
    | n + 1 => exact .succ (hunary n)
  | cons level tighter ih =>
    match n with
    | 0 => exact .exhausted fun _ => rfl
    | n + 1 => exact .succ ((ih n).bind fun left => (expressionsStepwise n).binaryRest level tighter left)

theorem startsAssignment_name {t : Token} (ht : t.kind = .identifier) (ts : List Token) :
    startsAssignment (t :: ts) = nextIs .equal ts := by
  match ts with
  | [] => rfl
  | u :: ts =>
    rw [Bool.eq_iff_iff, nextIs_cons]
    simp [startsAssignment, ht]

theorem stepwise_simple (n : Nat) {kind : Kind} {value : String} {f : Reader Stmt}
    (hf : ∀ position m ts, f m (⟨kind, value, position⟩ :: ts) =
      if startsAssignment (⟨kind, value, position⟩ :: ts) then
        closedExpression m .assignEnd (ts.drop 1) >>= fun x => .ok (.assign value x.1, x.2)
      else closedExpression m .statementEnd (⟨kind, value, position⟩ :: ts) >>=
        fun x => .ok (.expr x.1, x.2)) :
    StepwiseFrom kind value f n := by
  by_cases hkind : kind = .identifier
  · subst hkind
    have hassign := (stepwise_closedExpression n .assignEnd).bind fun e => .pure (Stmt.assign value e)
    have hexpr := ((stepwise_binary_name value .start n levels).bind fun e =>
      .expect .semicolon .statementEnd fun _ => .pure e).bind fun e => .pure (Stmt.expr e)
    refine .take (.ifNext .equal hassign hexpr) fun position m ts => ?_
    have hplace : closedExpression m .statementEnd (⟨.identifier, value, position⟩ :: ts) =
        closedExpression m .statementEnd (⟨.identifier, value, .start⟩ :: ts) := by
      rw [closedExpression, expression, binary_name]
      rfl
    rw [hf, startsAssignment_name rfl, hplace]
    rfl
  · have hexpr := (stepwise_closedExpression n .statementEnd).bind fun e => .pure (Stmt.expr e)
    refine .leave hexpr fun position m ts => ?_
    rw [hf, if_neg]
    rw [startsAssignment_iff]
    rintro ⟨t, u, rest, heq, ht, -⟩
    obtain rfl := (List.cons.inj heq).1
    exact hkind ht

/-- The functions for statements with budget `n` are made of single steps. -/
structure StatementsStepwise (n : Nat) : Prop where
  statement : Stepwise Parser.statement n
  alternative : Stepwise Parser.alternative n
  block : Stepwise Parser.block n
  blockRest : Stepwise Parser.blockRest n

section Statements

variable {n : Nat}

theorem stepwise_statement (ih : StatementsStepwise n) : Stepwise Parser.statement (n + 1) := by
  refine .succ (.of_head (.reject .expression) (fun _ => rfl) fun kind value => ?_)
  cases kind with
  | letWord =>
    exact .take (.expect .identifier .letName fun name => .expect .equal .letEqual fun _ =>
      (stepwise_closedExpression n .letEnd).bind fun e => .pure (.letVar name e)) fun _ _ _ => rfl
  | returnWord =>
    have hvalue := (stepwise_closedExpression n .returnEnd).bind fun e => .pure (Stmt.result (some e))
    exact .take (.ifNext .semicolon (.pure (.result none)) hvalue) fun _ _ _ => rfl
  | ifWord =>
    exact .take ((stepwise_expression n).bind fun e => ih.block.bind fun ss =>
      ih.alternative.bind fun b => .pure (.cond e (.block ss) b)) fun _ _ _ => rfl
  | forWord =>
    exact .take (.expect .identifier .loopVariable fun name => .expect .inWord .loopIn fun _ =>
      (stepwise_loopSource n).bind fun e => ih.block.bind fun ss =>
      .pure (.forEach name e (.block ss))) fun _ _ _ => rfl
  | whileWord =>
    exact .take ((stepwise_expression n).bind fun e => ih.block.bind fun ss =>
      .pure (.loop e (.block ss))) fun _ _ _ => rfl
  | tryWord =>
    exact .take (ih.block.bind fun ss => .expect .catchWord .catchWord fun _ =>
      stepwise_caughtName.bind fun name => ih.block.bind fun ss' =>
      .pure (.guarded (.block ss) name (.block ss'))) fun _ _ _ => rfl
  | _ => exact stepwise_simple n fun _ _ _ => rfl

theorem stepwise_alternative (ih : StatementsStepwise n) :
    Stepwise Parser.alternative (n + 1) := by
  refine .succ (.of_head (.pure none) (fun _ => rfl) fun kind value => ?_)
  by_cases hkind : kind = .elseWord
  · refine .take (.ifNext .ifWord (ih.statement.bind fun s => .pure (some (.single s)))
      (ih.block.bind fun ss => .pure (some (.block ss)))) fun position m ts => ?_
    rw [Parser.alternative, if_pos hkind]
    rfl
  · exact .leave (.pure none) fun position m ts => by rw [Parser.alternative, if_neg hkind]

theorem stepwise_block (ih : StatementsStepwise n) : Stepwise Parser.block (n + 1) :=
  .succ (.expect .leftBrace .openBlock fun _ => ih.blockRest)

theorem stepwise_blockRest (ih : StatementsStepwise n) : Stepwise Parser.blockRest (n + 1) :=
  .succ (.congr (.ifNext .rightBrace (.pure []) (ih.statement.bind fun s =>
    ih.blockRest.bind fun ss => .pure (s :: ss))) fun _ _ => rfl)

end Statements

theorem statementsStepwise (n : Nat) : StatementsStepwise n := by
  induction n with
  | zero =>
    exact ⟨.exhausted fun _ => rfl, .exhausted fun _ => rfl, .exhausted fun _ => rfl, .exhausted fun _ => rfl⟩
  | succ n ih =>
    exact ⟨stepwise_statement ih, stepwise_alternative ih, stepwise_block ih, stepwise_blockRest ih⟩

/-! ## Items -/

theorem stepwise_parameterNames (n : Nat) : Stepwise parameterNames n := by
  induction n with
  | zero => exact .exhausted fun _ => rfl
  | succ n ih =>
    exact .succ (.congr (.expect .identifier .parameterName fun name =>
      .ifNext .comma (ih.bind fun names => .pure (name :: names)) (.pure [name])) fun _ _ => rfl)

theorem stepwise_parameters (n : Nat) : Stepwise parameters n := by
  refine .of_head (stepwise_parameterNames n) (fun _ => rfl) fun kind value => ?_
  by_cases hkind : kind = .rightParen
  · exact .leave (.pure []) fun _ _ _ => if_pos (nextIs_cons.2 hkind)
  · exact .leave (stepwise_parameterNames n) fun _ _ _ => if_neg fun h => hkind (nextIs_cons.1 h)

theorem stepwise_function (n : Nat) : Stepwise function n :=
  .congr (.expect .identifier .functionName fun name => .expect .leftParen .openParameters fun _ =>
    (stepwise_parameters n).bind fun names => .expect .rightParen .closeParameters fun _ =>
    (statementsStepwise n).block.bind fun ss => .pure ⟨name, names, .block ss⟩) fun _ _ => rfl

theorem stepwise_mainBlock (n : Nat) : Stepwise mainBlock n :=
  .congr ((statementsStepwise n).block.bind fun ss => .pure ⟨"main", [], .block ss⟩) fun _ _ => rfl

theorem stepwise_superclass {n : Nat} : Stepwise (fun _ => superclass) n :=
  .ifNext .extendsWord (.expect .identifier .superclassName fun name => .pure (some name)) (.pure none)

theorem stepwise_classDeclaration (n : Nat) : Stepwise classDeclaration n :=
  .congr (.expect .identifier .className fun name => stepwise_superclass.bind fun parent =>
    (statementsStepwise n).block.bind fun ss => .pure ⟨name, parent, .block ss⟩) fun _ _ => rfl

theorem stepwise_item (n : Nat) : Stepwise item n := by
  refine .of_head (.reject .expression) (fun _ => rfl) fun kind value => ?_
  cases kind with
  | importWord => exact .leave (.reject .moduleName) fun _ _ _ => rfl
  | funcWord => exact .take ((stepwise_function n).bind fun f => .pure (.function f)) fun _ _ _ => rfl
  | mainWord => exact .take ((stepwise_mainBlock n).bind fun f => .pure (.function f)) fun _ _ _ => rfl
  | classWord =>
    exact .take ((stepwise_classDeclaration n).bind fun c => .pure (.declaration c)) fun _ _ _ => rfl
  | _ =>
    exact .leave ((statementsStepwise n).statement.bind fun s => .pure (.statement s)) fun _ _ _ => rfl

end ScriptWorkbench.Parser
