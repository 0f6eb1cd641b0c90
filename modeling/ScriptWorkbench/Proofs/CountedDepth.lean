/-
Indentation kept in a counter.

The emitter is told the depth of what it writes. The depth can also be kept in a counter that goes up before a
block and down behind it. **Both ways give the same lines, and the counter is always back where it was:**
behind a statement (`visitStmt_adds`), and so behind a function, a class and the whole program.
-/
import ScriptWorkbench.Proofs.Offside

namespace ScriptWorkbench.Target

open Ast Text

variable {emit : Nat → Except EmitError (List Line)}

/-! ## Writers -/

/-- Where writing stands: how far the next line is indented, and the lines so far. -/
structure Sheet where
  indent : Nat
  lines : List Line

abbrev Writer : Type := Sheet → Except EmitError Sheet

namespace Writer

def line (text : String) : Writer := fun sheet =>
  .ok { sheet with lines := sheet.lines ++ [⟨sheet.indent, text⟩] }

def emptyLine : Writer := fun sheet => .ok { sheet with lines := sheet.lines ++ [blankLine] }

def andThen (w w' : Writer) : Writer := fun sheet => w sheet >>= w'

def indented (w : Writer) : Writer := fun sheet => do
  let sheet ← w { sheet with indent := sheet.indent + 1 }
  return { sheet with indent := sheet.indent - 1 }

def rendering (tokens : List Token) (e : Expr) (w : String → Writer) : Writer := fun sheet => do
  let text ← render tokens e
  w text sheet

def each {α : Type} (w : α → Writer) : List α → Writer
  | [] => fun sheet => .ok sheet
  | a :: as => (w a).andThen (each w as)

end Writer

open Writer

def visitImport (ctx : Context) (package : String) : Writer :=
  match ctx.resolve package with
  | .error e => fun _ => .error (.unreadable e)
  | .ok (.package code) => (line ("# OPN Package: " ++ package)).andThen (line code)
  | .ok (.native name) => line ("import " ++ name)

mutual

def visitStmt (ctx : Context) : Stmt → Writer
  | .letVar name value => rendering ctx.tokens value fun text => line (name ++ " = " ++ text)
  | .assign name value => rendering ctx.tokens value fun text => line (name ++ " = " ++ text)
  | .importModule package => visitImport ctx package
  | .result none => line "return"
  | .result (some value) => rendering ctx.tokens value fun text => line ("return " ++ text)
  | .expr value => rendering ctx.tokens value line
  | .cond test body alternative =>
    rendering ctx.tokens test fun text => (line ("if " ++ text ++ ":")).andThen
      ((indented (visitBody ctx body)).andThen (visitAlternative ctx alternative))
  | .forEach target source body =>
    rendering ctx.tokens source fun text => (line ("for " ++ target ++ " in " ++ text ++ ":")).andThen
      (indented (visitBody ctx body))
  | .loop test body =>
    rendering ctx.tokens test fun text => (line ("while " ++ text ++ ":")).andThen
      (indented (visitBody ctx body))
  | .guarded body name handler =>
    (line "try:").andThen ((indented (visitBody ctx body)).andThen
      ((line (handlerHeader name)).andThen (indented (visitBody ctx handler))))
  | .function name parameters body =>
    (line (methodHeader name parameters)).andThen (indented (visitBody ctx body))
  | .foreign => fun _ => .error (.misfit .notStatement)

def visitBody (ctx : Context) : Body → Writer
  | .block [] => line "pass"
  | .block (s :: ss) => (visitStmt ctx s).andThen (visitStmts ctx ss)
  | .single s => fun _ => .error (.misfit (.noPart s.sort "statements"))
  | .foreign why => fun _ => .error (.misfit why)

def visitAlternative (ctx : Context) : Option Body → Writer
  | none => fun sheet => .ok sheet
  | some body => (line "else:").andThen (indented (visitBody ctx body))

def visitStmts (ctx : Context) : List Stmt → Writer
  | [] => fun sheet => .ok sheet
  | s :: ss => (visitStmt ctx s).andThen (visitStmts ctx ss)

end

def visitFunction (ctx : Context) (f : Function) : Writer :=
  (line "@profiler").andThen
    ((line ("def " ++ f.name ++ "(" ++ ", ".intercalate f.parameters ++ "):")).andThen
      (indented (visitBody ctx f.body)))

def visitClass (ctx : Context) (c : ClassDecl) : Writer :=
  (line (classHeader c)).andThen (indented (visitBody ctx (methodsOf c.body)))

def visitProgram (ctx : Context) (p : Program) : Writer :=
  (visitStmts ctx p.statements).andThen ((each (visitClass ctx) p.classes).andThen
    (each (fun f => (visitFunction ctx f).andThen emptyLine) p.functions))

/-! ## What a writer adds -/

/-- A writer adds the lines that are given for each depth, and leaves the counter as it is. -/
def Adds (w : Writer) (emit : Nat → Except EmitError (List Line)) : Prop :=
  ∀ sheet, w sheet = (emit sheet.indent).map fun lines => { sheet with lines := sheet.lines ++ lines }

def Level (w : Writer) : Prop := ∀ sheet sheet', w sheet = .ok sheet' → sheet'.indent = sheet.indent

theorem Adds.level {w : Writer} (h : Adds w emit) :
    Level w := by
  intro sheet sheet' hsheet
  rw [h] at hsheet
  cases hlines : emit sheet.indent with
  | error e => rw [hlines] at hsheet; cases hsheet
  | ok lines => rw [hlines] at hsheet; cases hsheet; rfl

theorem Adds.congr {w : Writer} {emit' : Nat → Except EmitError (List Line)} (h : Adds w emit)
    (heq : ∀ depth, emit depth = emit' depth) : Adds w emit' := by
  intro sheet
  rw [h, heq]

theorem adds_line (text : String) : Adds (line text) fun depth => pure [⟨depth, text⟩] := fun _ => rfl

theorem adds_nothing : Adds (fun sheet => .ok sheet) fun _ => .ok [] := by
  rintro ⟨indent, lines⟩
  change _ = Except.ok (Sheet.mk indent (lines ++ []))
  rw [List.append_nil]

theorem adds_error (e : EmitError) : Adds (fun _ => .error e) fun _ => .error e := fun _ => rfl

theorem Adds.andThen {w w' : Writer} {emit' : Nat → Except EmitError (List Line)} (h : Adds w emit)
    (h' : Adds w' emit') :
    Adds (w.andThen w') fun depth => do
      let first ← emit depth
      let others ← emit' depth
      return first ++ others := by
  intro sheet
  dsimp only
  rw [Writer.andThen, h]
  cases emit sheet.indent with
  | error e => rfl
  | ok first =>
    -- the second writer starts where the first one left the counter, which is where it was
    change w' _ = ((emit' sheet.indent).bind fun others => .ok (first ++ others)).map _
    rw [h']
    cases emit' sheet.indent with
    | error e => rfl
    | ok others => exact congrArg (Except.ok ∘ Sheet.mk sheet.indent) (List.append_assoc _ _ _)

theorem Adds.line_andThen {w : Writer} (h : Adds w emit) (text : String) :
    Adds ((line text).andThen w) fun depth => do
      let lines ← emit depth
      return ⟨depth, text⟩ :: lines :=
  (adds_line text).andThen h

theorem Adds.indented {w : Writer} (h : Adds w emit) :
    Adds w.indented fun depth => emit (depth + 1) := by
  intro sheet
  rw [Writer.indented, h]
  dsimp only
  cases emit (sheet.indent + 1) with
  | error e | ok lines => rfl

theorem Adds.rendering {tokens : List Token} {e : Expr} {w : String → Writer}
    {emit : String → Nat → Except EmitError (List Line)} (h : ∀ text, Adds (w text) (emit text)) :
    Adds (Writer.rendering tokens e w) fun depth => render tokens e >>= fun text => emit text depth := by
  intro sheet
  rw [Writer.rendering]
  cases render tokens e with
  | error e => rfl
  | ok text => exact h text sheet

theorem adds_each {α : Type} {w : α → Writer} {emit : Nat → α → Except EmitError (List Line)}
    (h : ∀ a, Adds (w a) (emit · a)) (as : List α) :
    Adds (each w as) fun depth => emitEach (emit depth) as := by
  induction as with
  | nil => exact adds_nothing
  | cons a as ih => exact (h a).andThen ih

/-! ## Trees -/

theorem visitImport_adds (ctx : Context) (package : String) :
    Adds (visitImport ctx package) fun depth => importLines ctx depth package := by
  intro sheet
  dsimp only
  rw [visitImport, importLines]
  cases ctx.resolve package with
  | error e => rfl
  | ok found =>
    cases found with
    | package code => exact (adds_line _).andThen (adds_line _) sheet
    | native name => rfl

mutual

/-- **A statement is written as the emitter has it,** from wherever the counter stands, and the counter
is left there. -/
theorem visitStmt_adds (ctx : Context) : ∀ s, Adds (visitStmt ctx s) fun depth => emitStmt ctx depth s
  | .letVar name value => by
    rw [visitStmt]
    exact Adds.congr (.rendering fun text => adds_line _) fun depth => by rw [emitStmt]
  | .assign name value => by
    rw [visitStmt]
    exact Adds.congr (.rendering fun text => adds_line _) fun depth => by rw [emitStmt]
  | .importModule package => by
    rw [visitStmt]
    exact (visitImport_adds ctx package).congr fun depth => by rw [emitStmt]
  | .result none => by
    rw [visitStmt]
    exact (adds_line _).congr fun depth => by rw [emitStmt]; rfl
  | .result (some value) => by
    rw [visitStmt]
    exact Adds.congr (.rendering fun text => adds_line _) fun depth => by rw [emitStmt]
  | .expr value => by
    rw [visitStmt]
    exact Adds.congr (.rendering adds_line) fun depth => by rw [emitStmt]
  | .cond test body alternative => by
    rw [visitStmt]
    refine Adds.congr (.rendering fun text => ((visitBody_adds ctx body).indented.andThen
      (visitAlternative_adds ctx alternative)).line_andThen _) fun depth => ?_
    rw [emitStmt]
    -- both sides fail at the same of the three parts, or have all their lines
    cases render ctx.tokens test with
    | error e => rfl
    | ok text =>
      change (((emitBody ctx (depth + 1) body).bind _).bind _ : Except EmitError (List Line)) =
        (emitBody ctx (depth + 1) body).bind _
      cases emitBody ctx (depth + 1) body with
      | error e => rfl
      | ok lines => cases emitAlternative ctx depth alternative <;> rfl
  | .forEach target source body => by
    rw [visitStmt]
    exact Adds.congr (.rendering fun text => (visitBody_adds ctx body).indented.line_andThen _)
      fun depth => by rw [emitStmt]
  | .loop test body => by
    rw [visitStmt]
    exact Adds.congr (.rendering fun text => (visitBody_adds ctx body).indented.line_andThen _)
      fun depth => by rw [emitStmt]
  | .guarded body name handler => by
    rw [visitStmt]
    refine Adds.congr (((visitBody_adds ctx body).indented.andThen
      ((visitBody_adds ctx handler).indented.line_andThen _)).line_andThen _) fun depth => ?_
    rw [emitStmt]
    -- the body comes first on both sides, and the handler is not reached where it fails
    cases hbody : emitBody ctx (depth + 1) body with
    | error e => rfl
    | ok lines => cases hhandler : emitBody ctx (depth + 1) handler <;> rfl
  | .function name parameters body => by
    rw [visitStmt]
    exact ((visitBody_adds ctx body).indented.line_andThen _).congr fun depth => by rw [emitStmt]
  | .foreign => by
    rw [visitStmt]
    exact (adds_error _).congr fun depth => by rw [emitStmt]

theorem visitBody_adds (ctx : Context) : ∀ b, Adds (visitBody ctx b) fun depth => emitBody ctx depth b
  | .block [] => by
    rw [visitBody]
    exact (adds_line _).congr fun depth => by rw [emitBody]; rfl
  | .block (s :: ss) => by
    rw [visitBody]
    exact ((visitStmt_adds ctx s).andThen (visitStmts_adds ctx ss)).congr fun depth => by
      rw [emitBody, emitStmts]
  | .single s => by
    rw [visitBody]
    exact (adds_error _).congr fun depth => by rw [emitBody]
  | .foreign why => by
    rw [visitBody]
    exact (adds_error _).congr fun depth => by rw [emitBody]

theorem visitAlternative_adds (ctx : Context) :
    ∀ b, Adds (visitAlternative ctx b) fun depth => emitAlternative ctx depth b
  | none => by
    rw [visitAlternative]
    exact adds_nothing.congr fun depth => by rw [emitAlternative]
  | some body => by
    rw [visitAlternative]
    exact ((visitBody_adds ctx body).indented.line_andThen _).congr fun depth => by rw [emitAlternative]

theorem visitStmts_adds (ctx : Context) :
    ∀ ss, Adds (visitStmts ctx ss) fun depth => emitStmts ctx depth ss
  | [] => by
    rw [visitStmts]
    exact adds_nothing.congr fun depth => by rw [emitStmts]
  | s :: ss => by
    rw [visitStmts]
    exact ((visitStmt_adds ctx s).andThen (visitStmts_adds ctx ss)).congr fun depth => by rw [emitStmts]

end

theorem visitFunction_adds (ctx : Context) (f : Function) :
    Adds (visitFunction ctx f) fun depth => do
      let body ← emitBody ctx (depth + 1) f.body
      return ⟨depth, "@profiler"⟩ ::
        ⟨depth, "def " ++ f.name ++ "(" ++ ", ".intercalate f.parameters ++ "):"⟩ :: body := by
  refine (((visitBody_adds ctx f.body).indented.line_andThen _).line_andThen _).congr fun depth => ?_
  cases emitBody ctx (depth + 1) f.body <;> rfl

theorem visitClass_adds (ctx : Context) (c : ClassDecl) :
    Adds (visitClass ctx c) fun depth => do
      let body ← emitBody ctx (depth + 1) (methodsOf c.body)
      return ⟨depth, classHeader c⟩ :: body :=
  (visitBody_adds ctx (methodsOf c.body)).indented.line_andThen _

/-- **A program is written as the emitter has it.** -/
theorem visitProgram_eq (ctx : Context) (p : Program) :
    visitProgram ctx p ⟨0, []⟩ = (programLines ctx .file p).map fun lines => ⟨0, lines⟩ := by
  have hblank : Adds emptyLine fun _ => pure [blankLine] := fun _ => rfl
  have hclasses := adds_each (visitClass_adds ctx) p.classes
  have hfunctions := adds_each (fun f => (visitFunction_adds ctx f).andThen hblank) p.functions
  -- at depth 0 the writers of classes and functions are the emitter's own
  have hclass : (fun c => emitBody ctx (0 + 1) (methodsOf c.body) >>= fun body =>
      pure (⟨0, classHeader c⟩ :: body)) = emitClass ctx := rfl
  have hfunction : (fun f => (emitBody ctx (0 + 1) f.body >>= fun body => pure (⟨0, "@profiler"⟩ ::
      ⟨0, "def " ++ f.name ++ "(" ++ ", ".intercalate f.parameters ++ "):"⟩ :: body)) >>=
        fun first => pure [blankLine] >>= fun others => pure (first ++ others)) =
      fun f => (emitFunction ctx f).map (· ++ [⟨0, ""⟩]) := by
    funext f
    rw [emitFunction]
    cases emitBody ctx 1 f.body <;> rfl
  have hall := (visitStmts_adds ctx p.statements).andThen (hclasses.andThen hfunctions) ⟨0, []⟩
  dsimp only at hall
  rw [hclass, hfunction] at hall
  rw [visitProgram, hall, programLines]
  cases emitStmts ctx 0 p.statements with
  | error e => rfl
  | ok statements =>
    cases emitEach (emitClass ctx) p.classes with
    | error e => rfl
    | ok classes =>
      cases emitEach (fun f => (emitFunction ctx f).map (· ++ [⟨0, ""⟩])) p.functions with
      | error e => rfl
      | ok functions =>
        exact congrArg (Except.ok ∘ Sheet.mk 0) (List.append_assoc statements classes functions).symm

end ScriptWorkbench.Target
