/-
The programs that are read from sources (`ReadFrom`): they consist of parts that the grammar derives from
tokens which the scanner formed. The expressions in such a program are those the emitter's theory is about,
and none of its statements is a function or an import, so that nothing is left of a class but its first line.
-/
import ScriptWorkbench.Proofs.Coverage
import ScriptWorkbench.Proofs.Faithfulness

namespace ScriptWorkbench

open Ast Token Grammar List

variable {ts us : List Token} {source : String} {p : Program}

/-! ## Read from a source -/

/-- **A program that was read from a source:** each part of it is made of tokens that the scanner
formed. -/
structure ReadFrom (p : Program) : Prop where
  functions : ∀ f ∈ p.functions, ∃ us, Makes (.function f) us ∧ ∀ t ∈ us, Formed t
  statements : ∀ s ∈ p.statements, ∃ us, Statement s us ∧ ∀ t ∈ us, Formed t
  classes : ∀ c ∈ p.classes, ∃ us, Makes (.declaration c) us ∧ ∀ t ∈ us, Formed t

theorem ReadFrom.addTo {item : Item} (h : ReadFrom p) (hitem : Makes item us)
    (hus : ∀ t ∈ us, Formed t) : ReadFrom (item.addTo p) := by
  cases item with
  | function f => exact ⟨forall_mem_cons.2 ⟨⟨us, hitem, hus⟩, h.functions⟩, h.statements, h.classes⟩
  | declaration c => exact ⟨h.functions, h.statements, forall_mem_cons.2 ⟨⟨us, hitem, hus⟩, h.classes⟩⟩
  | statement s =>
    cases hitem with
    | statement hs => exact ⟨h.functions, forall_mem_cons.2 ⟨⟨us, hs, hus⟩, h.statements⟩, h.classes⟩

theorem readFrom_of_pieces (pieces : List Piece) (h : ∀ t ∈ Piece.join pieces, Formed t) :
    ReadFrom (Piece.program pieces) := by
  induction pieces with
  | nil =>
    have hnone {α : Type} {P : α → Prop} : ∀ a ∈ ([] : List α), P a := by simp
    exact ⟨hnone, hnone, hnone⟩
  | cons piece pieces ih =>
    obtain ⟨hpiece, hrest⟩ := forall_mem_append.1 h
    exact (ih hrest).addTo piece.makes hpiece

theorem readProgram_eq_ok (h : readProgram source = .ok (ts, p)) :
    scan source = .ok ts ∧ Parser.parse ts = .ok p := by
  rw [readProgram] at h
  split at h
  next => cases h
  next hscan =>
    split at h
    next => cases h
    next hparse =>
      cases h
      exact ⟨hscan, hparse⟩

theorem readProgram_of_parse (hscan : scan source = .ok ts) (hparse : Parser.parse ts = .ok p) :
    readProgram source = .ok (ts, p) := by
  rw [readProgram, hscan]
  dsimp only
  rw [hparse]

theorem covers_of_readProgram (h : readProgram source = .ok (ts, p)) :
    ∃ us eof, ts = us ++ [eof] ∧ eof.kind = .endOfInput ∧ Covers p us := by
  obtain ⟨hscan, hparse⟩ := readProgram_eq_ok h
  obtain ⟨us, eof, rfl, hus, heof⟩ := scanFrom_closed hscan
  exact ⟨us, eof, rfl, heof, covers_of_topLevel hus heof (by rw [Parser.budget]; omega) hparse⟩

theorem readFrom_of_readProgram (h : readProgram source = .ok (ts, p)) : ReadFrom p := by
  obtain ⟨hscan, hparse⟩ := readProgram_eq_ok h
  obtain ⟨us, eof, rfl, hus, heof⟩ := scanFrom_formed hscan
  have hend : NoEnd us := fun t ht => (hus t ht).ne_end
  obtain ⟨pieces, tail, rfl, rfl, -⟩ := covers_of_topLevel hend heof (by rw [Parser.budget]; omega) hparse
  exact readFrom_of_pieces pieces (forall_mem_append.1 hus).1

/-! ## Its expressions -/

mutual

def exprParts : Expr → List Expr
  | .literal value => [.literal value]
  | .name value => [.name value]
  | .this => [.this]
  | .attribute target field => .attribute target field :: exprParts target
  | .unary op operand => .unary op operand :: exprParts operand
  | .binary left op right => .binary left op right :: (exprParts left ++ exprParts right)
  | .range first last => .range first last :: (exprParts first ++ exprParts last)
  | .list elements => .list elements :: itemParts elements
  | .index target position => .index target position :: (exprParts target ++ exprParts position)
  | .call callee arguments => .call callee arguments :: (exprParts callee ++ itemParts arguments)
  | .foreign why => [.foreign why]

def itemParts : List Expr → List Expr
  | [] => []
  | e :: es => exprParts e ++ itemParts es

end

mutual

def stmtParts : Stmt → List Expr
  | .letVar _ value => exprParts value
  | .assign _ value => exprParts value
  | .importModule _ => []
  | .result none => []
  | .result (some value) => exprParts value
  | .expr value => exprParts value
  | .cond test body alternative => exprParts test ++ (bodyParts body ++ alternativeParts alternative)
  | .forEach _ source body => exprParts source ++ bodyParts body
  | .loop test body => exprParts test ++ bodyParts body
  | .guarded body _ handler => bodyParts body ++ bodyParts handler
  | .function _ _ body => bodyParts body
  | .foreign => []

def bodyParts : Body → List Expr
  | .block statements => blockParts statements
  | .single statement => stmtParts statement
  | .foreign _ => []

def alternativeParts : Option Body → List Expr
  | none => []
  | some body => bodyParts body

def blockParts : List Stmt → List Expr
  | [] => []
  | s :: ss => stmtParts s ++ blockParts ss

end

def Program.parts (p : Program) : List Expr :=
  p.statements.flatMap stmtParts ++ (p.classes.flatMap fun c => bodyParts c.body) ++
    p.functions.flatMap fun f => bodyParts f.body

def CallsProduced (es : List Expr) : Prop :=
  ∀ callee arguments, .call callee arguments ∈ es → Target.Produced (.one callee)

theorem callsProduced_append {es es' : List Expr} :
    CallsProduced (es ++ es') ↔ CallsProduced es ∧ CallsProduced es' := by
  simp only [CallsProduced, mem_append]
  constructor
  · intro h
    exact ⟨fun c as hmem => h c as (.inl hmem), fun c as hmem => h c as (.inr hmem)⟩
  · rintro ⟨h, h'⟩ c as (hmem | hmem)
    · exact h c as hmem
    · exact h' c as hmem

theorem callsProduced_nil : CallsProduced [] := fun _ _ hmem => absurd hmem not_mem_nil

theorem CallsProduced.cons {e : Expr} {es : List Expr} (h : CallsProduced es)
    (he : ∀ callee arguments, e ≠ .call callee arguments) : CallsProduced (e :: es) := by
  intro callee arguments hmem
  obtain heq | hmem := mem_cons.1 hmem
  · exact absurd heq.symm (he callee arguments)
  · exact h callee arguments hmem

theorem callsProduced_flatMap {α : Type} {f : α → List Expr} {as : List α}
    (h : ∀ a ∈ as, CallsProduced (f a)) : CallsProduced (as.flatMap f) := by
  intro callee arguments hmem
  obtain ⟨a, ha, hmem⟩ := mem_flatMap.1 hmem
  exact h a ha callee arguments hmem

def subjectParts : Target.Subject → List Expr
  | .one e => exprParts e
  | .all es => itemParts es

theorem callsProduced_of_produced {s : Target.Subject} (h : Target.Produced s) :
    CallsProduced (subjectParts s) := by
  induction h with
  | literal | name | this => exact callsProduced_nil.cons (by simp)
  | field _ _ ih | unary _ _ ih | list _ ih => exact CallsProduced.cons ih (by simp)
  | binary _ _ _ ihl ihr => exact (callsProduced_append.2 ⟨ihl, ihr⟩).cons (by simp)
  | range _ _ iha ihb => exact (callsProduced_append.2 ⟨iha, ihb⟩).cons (by simp)
  | index _ _ iht ihi => exact (callsProduced_append.2 ⟨iht, ihi⟩).cons (by simp)
  | @call c es hc hes ihc ihes =>
    intro callee arguments hmem
    obtain heq | hmem := mem_cons.1 hmem
    · cases heq
      exact hc
    · exact callsProduced_append.2 ⟨ihc, ihes⟩ callee arguments hmem
  | nothing => exact callsProduced_nil
  | more _ _ ihe ihes => exact callsProduced_append.2 ⟨ihe, ihes⟩

theorem callsProduced_of_expression {e : Expr} (h : Expression e us) (hus : ∀ t ∈ us, Formed t) :
    CallsProduced (exprParts e) :=
  callsProduced_of_produced (Target.produced_of_derives h hus)

def partParts : Part → List Expr
  | .statement s => stmtParts s
  | .otherwise b => alternativeParts b
  | .block ss => blockParts ss
  | .closing ss => blockParts ss

theorem callsProduced_of_forms {part : Part} (h : Forms part us) (hus : ∀ t ∈ us, Formed t) :
    CallsProduced (partParts part) := by
  induction h with
  | letVar _ _ _ he _ | assign _ _ he _ | returnValue _ he _ | expr he _ =>
    exact callsProduced_of_expression he (by grind)
  | returnNothing | nothing | close => exact callsProduced_nil
  | cond _ he _ _ ihb iho =>
    exact callsProduced_append.2 ⟨callsProduced_of_expression he (by grind),
      callsProduced_append.2 ⟨ihb (by grind), iho (by grind)⟩⟩
  | forEach _ _ _ he _ ihb =>
    exact callsProduced_append.2 ⟨callsProduced_of_produced
      (Target.produced_of_source he (by grind)),
      ihb (by grind)⟩
  | loop _ he _ ihb =>
    exact callsProduced_append.2 ⟨callsProduced_of_expression he (by grind), ihb (by grind)⟩
  | guarded _ _ _ _ _ ihb ihh =>
    exact callsProduced_append.2 ⟨ihb (by grind), ihh (by grind)⟩
  | elseBlock _ _ ih | elseIf _ _ _ ih | block _ _ ih => exact ih (by grind)
  | cons _ _ ihs ihss =>
    exact callsProduced_append.2 ⟨ihs (by grind), ihss (by grind)⟩

theorem ReadFrom.callsProduced (h : ReadFrom p) : CallsProduced p.parts := by
  refine callsProduced_append.2 ⟨callsProduced_append.2 ⟨?_, ?_⟩, ?_⟩
  · refine callsProduced_flatMap fun s hs => ?_
    obtain ⟨us, hmakes, hus⟩ := h.statements s hs
    exact callsProduced_of_forms hmakes hus
  · refine callsProduced_flatMap fun c hc => ?_
    obtain ⟨us, hmakes, hus⟩ := h.classes c hc
    cases hmakes with
    | declaration _ _ _ hss => exact callsProduced_of_forms hss (by grind)
  · refine callsProduced_flatMap fun f hf => ?_
    obtain ⟨us, hmakes, hus⟩ := h.functions f hf
    cases hmakes with
    | function _ _ _ _ _ hss | mainBlock _ hss => exact callsProduced_of_forms hss (by grind)

/-! ## Its classes -/

theorem sort_ne_function {s : Stmt} (h : Statement s us) :
    s.sort ≠ "Function" := by
  cases h <;> simp [Stmt.sort]

theorem filter_function_eq_nil {ss : List Stmt} (h : Forms (.closing ss) us) :
    (ss.filter fun s => s.sort == "Function") = [] := by
  generalize hpart : Part.closing ss = part at h
  induction h generalizing ss with
  | close => cases hpart; rfl
  | cons hs _ _ ih =>
    cases hpart
    rw [filter_cons, if_neg (by simpa using sort_ne_function hs)]
    exact ih rfl
  | _ => cases hpart

theorem methodsOf_block {ss : List Stmt} (h : Block ss us) :
    Target.methodsOf (.block ss) = .block [] := by
  cases h with
  | block _ hclosing => rw [Target.methodsOf, filter_function_eq_nil hclosing]

/-- **A class of a source is written without its body.** -/
theorem emitClass_of_makes (ctx : Target.Context) {c : ClassDecl} (h : Makes (.declaration c) us) :
    Target.emitClass ctx c = .ok [⟨0, Target.classHeader c⟩, ⟨1, "pass"⟩] := by
  cases h with
  | declaration _ _ _ hss =>
    rw [Target.emitClass, methodsOf_block hss]
    rfl

/-! ## Compiling a source -/

open Target

theorem tokens_of_ofFiles {ctx : Context} {fs : Files} {ts : List Token} (h : Context.ofFiles fs ts = .ok ctx) :
    ctx.tokens = ts := by
  rw [Context.ofFiles] at h
  split at h <;> cases h
  rfl

theorem compile_of_readProgram {source : String} {ts : List Token} {p : Program}
    (h : readProgram source = .ok (ts, p)) (fs : Files) (mode : Mode) :
    compile fs mode source = ((Context.ofFiles fs ts).bind fun ctx => emit ctx mode p).mapError .emit := by
  rw [compile, h]

theorem compile_eq_ok {fs : Files} {mode : Mode} {source text : String}
    (h : compile fs mode source = .ok text) :
    ∃ ts p ctx, readProgram source = .ok (ts, p) ∧ Context.ofFiles fs ts = .ok ctx ∧
      emit ctx mode p = .ok text := by
  cases hread : readProgram source with
  | error e => rw [compile, hread] at h; cases h
  | ok r =>
    obtain ⟨ts, p⟩ := r
    rw [compile_of_readProgram hread] at h
    cases hemit : (Context.ofFiles fs ts).bind fun ctx => emit ctx mode p with
    | error e => rw [hemit] at h; cases h
    | ok text' =>
      rw [hemit] at h
      cases h
      obtain ⟨ctx, hctx, hemit⟩ := bind_eq_ok hemit
      exact ⟨ts, p, ctx, rfl, hctx, hemit⟩

end ScriptWorkbench
