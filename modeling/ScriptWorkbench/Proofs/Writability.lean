/-
Which programs can be written (`emit_eq_ok_iff_displaced`).

The parser puts what follows `else if` into the place of a block as it stands, as a single statement, and the
emitter then looks for the statements in it. Classes do not count: nothing is written of their bodies.
-/
import ScriptWorkbench.Proofs.SourcePrograms

namespace ScriptWorkbench

open List

variable {us : List Token}

namespace Ast

/-! ## Displaced statements -/

mutual

/-- The statements inside a statement that stand where a block belongs, in the order in which they would
be written. -/
def Stmt.displaced : Stmt → List Stmt
  | .letVar .. | .assign .. | .importModule _ | .result _ | .expr _ | .foreign => []
  | .cond _ body alternative => body.displaced ++ alternativeDisplaced alternative
  | .forEach _ _ body => body.displaced
  | .loop _ body => body.displaced
  | .guarded body _ handler => body.displaced ++ handler.displaced
  | .function _ _ body => body.displaced

def Body.displaced : Body → List Stmt
  | .block statements => blockDisplaced statements
  | .single statement => statement :: statement.displaced
  | .foreign _ => []

def alternativeDisplaced : Option Body → List Stmt
  | none => []
  | some body => body.displaced

def blockDisplaced : List Stmt → List Stmt
  | [] => []
  | s :: ss => s.displaced ++ blockDisplaced ss

end

end Ast

open Ast Token Grammar

def Program.displaced (p : Program) : List Stmt :=
  blockDisplaced p.statements ++ p.functions.flatMap fun f => f.body.displaced

namespace Target

variable {α : Type} {ss : List Stmt} {r : Except EmitError α}

/-! ## Writing up to the first displaced statement -/

/-- How the writing of something ends that holds the given displaced statements: without any of them there
is a result, otherwise the first one is asked for its statements, which it does not have. -/
def WrittenUnless {α : Type} : List Stmt → Except EmitError α → Prop
  | [], r => ∃ a, r = .ok a
  | s :: _, r => r = .error (.misfit (.noPart s.sort "statements"))

theorem writtenUnless_ok (a : α) : WrittenUnless [] (.ok a) := ⟨a, rfl⟩

/-- **Two parts after each other.** The second one is reached if nothing is displaced in the first. -/
theorem WrittenUnless.bind {β : Type} {ss' : List Stmt} {f : α → Except EmitError β}
    (h : WrittenUnless ss r) (hf : ∀ a, r = .ok a → WrittenUnless ss' (f a)) :
    WrittenUnless (ss ++ ss') (r >>= f) := by
  cases ss with
  | nil =>
    obtain ⟨a, rfl⟩ := h
    exact hf a rfl
  | cons s ss =>
    obtain rfl := h
    rfl

theorem WrittenUnless.map {β : Type} (f : α → β) (h : WrittenUnless ss r) :
    WrittenUnless ss (r >>= fun a => .ok (f a)) := by
  have hbind := h.bind fun a _ => writtenUnless_ok (f a)
  rwa [append_nil] at hbind

theorem WrittenUnless.after_render {tokens : List Token} {e : Expr}
    {f : String → Except EmitError α} (he : Produced (.one e))
    (hf : ∀ text, WrittenUnless ss (f text)) :
    WrittenUnless ss (render tokens e >>= f) := by
  obtain ⟨text, htext, -⟩ := he.written tokens
  rw [htext]
  exact hf text

theorem WrittenUnless.eq_ok_iff (h : WrittenUnless ss r) : (∃ a, r = .ok a) ↔ ss = [] := by
  cases ss with
  | nil => exact ⟨fun _ => rfl, fun _ => h⟩
  | cons s ss =>
    obtain rfl := h
    constructor
    · rintro ⟨a, ha⟩
      cases ha
    · intro hnil
      cases hnil

/-! ## Statements -/

def PartWritten (ctx : Context) : Part → Prop
  | .statement s => ∀ depth, WrittenUnless s.displaced (emitStmt ctx depth s)
  | .otherwise b => ∀ depth, WrittenUnless (alternativeDisplaced b) (emitAlternative ctx depth b)
  | .block ss => ∀ depth, WrittenUnless (blockDisplaced ss) (emitBody ctx depth (.block ss))
  | .closing ss => ∀ depth, WrittenUnless (blockDisplaced ss) (emitStmts ctx depth ss)

/-- **Statements of a source are written unless one is displaced.** -/
theorem partWritten_of_forms (ctx : Context) {part : Part} {us : List Token} (h : Forms part us)
    (hus : ∀ t ∈ us, Formed t) : PartWritten ctx part := by
  induction h with
  | letVar _ _ _ he _ | assign _ _ he _ | returnValue _ he _ | expr he _ =>
    intro depth
    rw [emitStmt]
    exact .after_render (produced_of_derives he (by grind)) fun _ => writtenUnless_ok _
  | returnNothing | nothing | close => exact fun _ => writtenUnless_ok _
  | cond _ he _ _ ihb iho =>
    intro depth
    rw [emitStmt]
    refine .after_render (produced_of_derives he (by grind)) fun test => ?_
    exact (ihb (by grind) (depth + 1)).bind fun body _ => (iho (by grind) depth).map _
  | forEach _ _ _ he _ ihb =>
    intro depth
    rw [emitStmt]
    exact .after_render (produced_of_source he (by grind)) fun source => (ihb (by grind) (depth + 1)).map _
  | loop _ he _ ihb =>
    intro depth
    rw [emitStmt]
    exact .after_render (produced_of_derives he (by grind)) fun test => (ihb (by grind) (depth + 1)).map _
  | guarded _ _ _ _ _ ihb ihh =>
    intro depth
    rw [emitStmt]
    exact (ihb (by grind) (depth + 1)).bind fun body _ => (ihh (by grind) (depth + 1)).map _
  | elseBlock _ _ ih =>
    intro depth
    rw [emitAlternative]
    exact (ih (by grind) (depth + 1)).map _
  | elseIf =>
    -- the statement itself is the first displaced one, whatever else is displaced inside it
    exact fun _ => rfl
  | @block ss _ _ _ _ ih =>
    intro depth
    cases ss with
    | nil => exact writtenUnless_ok _
    | cons s ss => exact ih (by grind) depth
  | cons _ _ ihs ihss =>
    intro depth
    rw [emitStmts]
    exact (ihs (by grind) depth).bind fun first _ => (ihss (by grind) depth).map _

/-! ## Programs -/

section

variable (ctx : Context)

theorem emitStmts_written (h : ∀ s ∈ ss, ∃ us, Statement s us ∧ ∀ t ∈ us, Formed t) :
    WrittenUnless (blockDisplaced ss) (emitStmts ctx 0 ss) := by
  induction ss with
  | nil => exact writtenUnless_ok _
  | cons s ss ih =>
    obtain ⟨⟨us, hs, hus⟩, hss⟩ := forall_mem_cons.1 h
    rw [emitStmts]
    exact (partWritten_of_forms ctx hs hus 0).bind fun first _ => (ih hss).map _

theorem emitEach_written {emit : α → Except EmitError (List Line)} {displaced : α → List Stmt}
    {as : List α} (h : ∀ a ∈ as, WrittenUnless (displaced a) (emit a)) :
    WrittenUnless (as.flatMap displaced) (emitEach emit as) := by
  induction as with
  | nil => exact writtenUnless_ok _
  | cons a as ih =>
    obtain ⟨ha, has⟩ := forall_mem_cons.1 h
    rw [emitEach]
    exact ha.bind fun first _ => (ih has).map _

theorem emitFunction_written {f : Function} {us : List Token} (h : Makes (.function f) us)
    (hus : ∀ t ∈ us, Formed t) : WrittenUnless f.body.displaced (emitFunction ctx f) := by
  cases h with
  | function _ _ _ _ _ hss | mainBlock _ hss => exact (partWritten_of_forms ctx hss (by grind) 1).map _

theorem emitClasses_eq_ok {cs : List ClassDecl}
    (h : ∀ c ∈ cs, ∃ us, Makes (.declaration c) us ∧ ∀ t ∈ us, Formed t) :
    WrittenUnless [] (emitEach (emitClass ctx) cs) := by
  have hone : ∀ c ∈ cs, WrittenUnless [] (emitClass ctx c) := by
    intro c hc
    obtain ⟨us, hmakes, -⟩ := h c hc
    rw [emitClass_of_makes ctx hmakes]
    exact writtenUnless_ok _
  have heach := emitEach_written hone
  rwa [flatMap_eq_nil_iff.2 fun _ _ => rfl] at heach

theorem programLines_written (mode : Mode) {p : Program} (h : ReadFrom p) :
    WrittenUnless p.displaced (programLines ctx mode p) := by
  have hloose := emitStmts_written ctx h.statements
  rw [programLines]
  refine hloose.bind fun loose hlines => ?_
  refine (emitClasses_eq_ok ctx h.classes).bind fun classes _ => ?_
  split
  next hprompt =>
    -- the loose statements are written once more, and they were written before
    have hagain : ∃ lines, emitBody ctx 0 (.block p.statements) = .ok lines := by
      cases hss : p.statements with
      | nil => exact ⟨_, rfl⟩
      | cons s ss => exact ⟨loose, by rw [emitBody, ← hss, hlines]⟩
    obtain ⟨lines, hlines'⟩ := hagain
    rw [isEmpty_iff.1 hprompt.2, hlines']
    exact writtenUnless_ok _
  next =>
    refine (emitEach_written fun f hf => ?_).map _
    obtain ⟨us, hmakes, hus⟩ := h.functions f hf
    exact (emitFunction_written ctx hmakes hus).map _

theorem emit_written (mode : Mode) {p : Program} (h : ReadFrom p) :
    WrittenUnless p.displaced (emit ctx mode p) := by
  have hlines := programLines_written ctx mode h
  cases mode with
  | prompt => exact hlines.map bodyText
  | file => exact hlines.map _

end

end Target

/-! ## Where displaced statements come from -/

def HasElseIf (us : List Token) : Prop := ∃ t u, t.kind = .elseWord ∧ u.kind = .ifWord ∧ [t, u] <:+: us

theorem HasElseIf.mono {vs : List Token} (h : HasElseIf us) (hsub : us <:+: vs) :
    HasElseIf vs := by
  obtain ⟨t, u, ht, hu, hpart⟩ := h
  exact ⟨t, u, ht, hu, hpart.trans hsub⟩

def partDisplaced : Part → List Stmt
  | .statement s => s.displaced
  | .otherwise b => alternativeDisplaced b
  | .block ss | .closing ss => blockDisplaced ss

theorem partDisplaced_eq_nil {part : Part} (h : Forms part us) (hnone : ¬HasElseIf us) :
    partDisplaced part = [] := by
  induction h with
  | letVar | assign | returnNothing | returnValue | expr | nothing | close => rfl
  | @cond _ _ _ t us vs ws _ _ _ _ ihb iho =>
    exact append_eq_nil_iff.2 ⟨ihb fun h => hnone (h.mono ⟨t :: us, ws, by simp⟩),
      iho fun h => hnone (h.mono ⟨t :: us ++ vs, [], by simp⟩)⟩
  | @forEach _ _ t name within us vs _ _ _ _ _ ihb =>
    exact ihb fun h => hnone (h.mono ⟨t :: name :: within :: us, [], by simp⟩)
  | @loop _ _ t us vs _ _ _ ihb => exact ihb fun h => hnone (h.mono ⟨t :: us, [], by simp⟩)
  | @guarded _ _ _ t u us vs ws _ _ _ _ _ ihb ihh =>
    exact append_eq_nil_iff.2 ⟨ihb fun h => hnone (h.mono ⟨[t], u :: (vs ++ ws), by simp⟩),
      ihh fun h => hnone (h.mono ⟨t :: (us ++ u :: vs), [], by simp⟩)⟩
  | @elseBlock _ t us _ _ ih | @block _ t us _ _ ih =>
    exact ih fun h => hnone (h.mono (suffix_cons t us).isInfix)
  | @elseIf _ t u us ht hu _ _ => exact absurd ⟨t, u, ht, hu, [], us, rfl⟩ hnone
  | @cons _ _ us vs _ _ ihs ihss =>
    exact append_eq_nil_iff.2
      ⟨ihs fun h => hnone (h.mono (prefix_append us vs).isInfix),
        ihss fun h => hnone (h.mono (suffix_append us vs).isInfix)⟩

theorem functionDisplaced_eq_nil {f : Function} (h : Makes (.function f) us) (hnone : ¬HasElseIf us) :
    f.body.displaced = [] := by
  cases h with
  | @function _ _ t name l r us vs _ _ _ _ _ hss =>
    exact partDisplaced_eq_nil hss fun h => hnone (h.mono ⟨t :: name :: l :: (us ++ [r]), [], by simp⟩)
  | @mainBlock _ t us _ hss =>
    exact partDisplaced_eq_nil hss fun h => hnone (h.mono (suffix_cons t us).isInfix)

theorem displaced_eq_nil_of_pieces (pieces : List Piece) (hnone : ¬HasElseIf (Piece.join pieces)) :
    (Piece.program pieces).displaced = [] := by
  induction pieces with
  | nil => rfl
  | cons piece pieces ih =>
    obtain ⟨item, us, hmakes⟩ := piece
    have hfront : ¬HasElseIf us := fun h => hnone (h.mono (prefix_append us _).isInfix)
    have hrest := ih fun h => hnone (h.mono (suffix_append us _).isInfix)
    obtain ⟨hloose, hfunctions⟩ := append_eq_nil_iff.1 hrest
    cases item with
    | declaration c => exact hrest
    | statement s =>
      cases hmakes with
      | statement hs =>
        exact append_eq_nil_iff.2
          ⟨append_eq_nil_iff.2 ⟨partDisplaced_eq_nil hs hfront, hloose⟩, hfunctions⟩
    | function f =>
      exact append_eq_nil_iff.2
        ⟨hloose, append_eq_nil_iff.2 ⟨functionDisplaced_eq_nil hmakes hfront, hfunctions⟩⟩

/-- **What can be written.** Take a program that was read from a source. There is a text for it, in the one
mode and in the other, if and only if no statement is displaced in it; otherwise the first displaced
statement is asked for its statements, and that it has none is the failure. Nothing is displaced in a
source where no `else` is followed by an `if`. -/
theorem emit_eq_ok_iff_displaced (ctx : Target.Context) (mode : Target.Mode) {source : String}
    {ts : List Token} {p : Program} (h : readProgram source = .ok (ts, p)) :
    ((∃ text, Target.emit ctx mode p = .ok text) ↔ p.displaced = []) ∧
      (∀ s rest, p.displaced = s :: rest →
        Target.emit ctx mode p = .error (.misfit (.noPart s.sort "statements"))) ∧
      (¬HasElseIf ts → p.displaced = []) := by
  have hwritten := Target.emit_written ctx mode (readFrom_of_readProgram h)
  refine ⟨hwritten.eq_ok_iff, fun s rest hdisplaced => ?_, fun hnone => ?_⟩
  · rw [hdisplaced] at hwritten
    exact hwritten
  · obtain ⟨us, eof, rfl, -, pieces, tail, rfl, rfl, -⟩ := covers_of_readProgram h
    exact displaced_eq_nil_of_pieces pieces fun h => hnone (h.mono ⟨[], tail ++ [eof], by simp⟩)

/-- Two branches that are blocks: there is a text in both modes. -/
theorem emit_two_blocks :
    ∃ ts p, readProgram "main \x7b if a \x7b f(); \x7d else \x7b return; \x7d \x7d" = .ok (ts, p) ∧
      p.displaced = [] ∧ ∀ ctx mode, ∃ text, Target.emit ctx mode p = .ok text := by
  obtain ⟨⟨ts, p⟩, hread, hp⟩ := exists_eq_ok_of_map (fun r => r.2.displaced.isEmpty)
    (by decide +kernel : (readProgram "main \x7b if a \x7b f(); \x7d else \x7b return; \x7d \x7d").toOption.map
      _ = some true)
  have hnone : p.displaced = [] := List.isEmpty_iff.1 hp
  exact ⟨ts, p, hread, hnone, fun ctx mode => (emit_eq_ok_iff_displaced ctx mode hread).1.2 hnone⟩

/-- After `else if` an expression is a statement of its own, and no text comes of it. -/
theorem emit_fails_behind_else_if :
    ∃ ts p, readProgram "if a \x7b\x7d else if b;" = .ok (ts, p) ∧ ∀ ctx mode, Target.emit ctx mode p =
      .error (.misfit (.noPart "ExpressionStatement" "statements")) := by
  let ts : List Token := [⟨.ifWord, "if", ⟨1, 1⟩⟩, ⟨.identifier, "a", ⟨1, 4⟩⟩, ⟨.leftBrace, "\x7b", ⟨1, 6⟩⟩,
    ⟨.rightBrace, "\x7d", ⟨1, 7⟩⟩, ⟨.elseWord, "else", ⟨1, 9⟩⟩, ⟨.ifWord, "if", ⟨1, 14⟩⟩,
    ⟨.identifier, "b", ⟨1, 17⟩⟩, ⟨.semicolon, ";", ⟨1, 18⟩⟩, ⟨.endOfInput, "", ⟨1, 19⟩⟩]
  let p : Program := ⟨[], [.cond (.name "a") (.block []) (some (.single (.expr (.name "b"))))], []⟩
  have hread : readProgram "if a \x7b\x7d else if b;" = .ok (ts, p) :=
    readProgram_of_parse (eq_ok_of_toOption (by decide +kernel)) rfl
  refine ⟨ts, p, hread, fun ctx mode => ?_⟩
  cases mode <;> rfl

end ScriptWorkbench
