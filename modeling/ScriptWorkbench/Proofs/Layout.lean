/-
Layout does not matter.

Two sources may differ in blanks, line ends and comments and still have the same tokens, apart from the places
at which these stand. That the output is then the same is not plain: the emitter is handed the tokens too,
since it can put the line of a call of `py.print` in front of the arguments. It looks at a token only for a
callee that is a single name with a point in it, and the scanner makes no such identifier. **So no line is put
into any call of any program that was read from a source.**
-/
import ScriptWorkbench.Proofs.Placement
import ScriptWorkbench.Proofs.SourcePrograms

namespace ScriptWorkbench

open Ast Token Grammar List

namespace Target

/-! ## Lines without tokens -/

/-- The text of an expression, or of several, is the same with these tokens and with those. -/
def SameText (tokens tokens' : List Token) : Subject → Prop
  | .one e => render tokens e = render tokens' e
  | .all es => renderAll tokens es = renderAll tokens' es

theorem Produced.sameText (tokens tokens' : List Token) {s : Subject} (h : Produced s) :
    SameText tokens tokens' s := by
  induction h with
  | literal | name | this | nothing => rfl
  | field _ _ ih | unary _ _ ih | list _ ih =>
    simp only [SameText, render] at ih ⊢
    rw [ih]
  | binary _ _ _ ihl ihr | range _ _ ihl ihr | index _ _ ihl ihr =>
    simp only [SameText, render] at ihl ihr ⊢
    rw [ihl, ihr]
  | call hc _ ihc ihes =>
    simp only [SameText, render] at ihc ihes ⊢
    rw [ihc, ihes, injectedLine?_eq_none tokens hc, injectedLine?_eq_none tokens' hc]
  | more _ _ ihe ihes =>
    simp only [SameText, renderAll] at ihe ihes ⊢
    rw [ihe, ihes]

section

variable (ctx ctx' : Context)

theorem render_eq_of_expression {e : Expr} {us : List Token} (h : Expression e us)
    (hus : ∀ t ∈ us, Formed t) : render ctx.tokens e = render ctx'.tokens e :=
  (produced_of_derives h hus).sameText ctx.tokens ctx'.tokens

/-- The lines of a part are the same in the one surroundings and in the other, at every depth. -/
def SameLines : Part → Prop
  | .statement s => ∀ depth, emitStmt ctx depth s = emitStmt ctx' depth s
  | .otherwise b => ∀ depth, emitAlternative ctx depth b = emitAlternative ctx' depth b
  | .block ss => ∀ depth, emitBody ctx depth (.block ss) = emitBody ctx' depth (.block ss)
  | .closing ss => ∀ depth, emitStmts ctx depth ss = emitStmts ctx' depth ss

theorem sameLines_of_forms {part : Part} {us : List Token} (h : Forms part us)
    (hus : ∀ t ∈ us, Formed t) : SameLines ctx ctx' part := by
  induction h with
  | letVar _ _ _ he _ | assign _ _ he _ | returnValue _ he _ | expr he _ =>
    intro depth
    have he := render_eq_of_expression ctx ctx' he (by grind)
    simp only [emitStmt, he]
  | returnNothing | nothing | elseIf | close => exact fun _ => rfl
  | cond _ he _ _ ihb iho =>
    intro depth
    have he := render_eq_of_expression ctx ctx' he (by grind)
    simp only [emitStmt, he, ihb (by grind) _, iho (by grind) _]
  | forEach _ _ _ he _ ihb =>
    intro depth
    have he := (produced_of_source he (by grind)).sameText ctx.tokens
      ctx'.tokens
    simp only [SameText] at he
    simp only [emitStmt, he, ihb (by grind) _]
  | loop _ he _ ihb =>
    intro depth
    have he := render_eq_of_expression ctx ctx' he (by grind)
    simp only [emitStmt, he, ihb (by grind) _]
  | guarded _ _ _ _ _ ihb ihh =>
    intro depth
    simp only [emitStmt, ihb (by grind) _, ihh (by grind) _]
  | elseBlock _ _ ih =>
    intro depth
    simp only [emitAlternative, ih (by grind) _]
  | @block ss _ _ _ _ ih =>
    intro depth
    cases ss with
    | nil => rfl
    | cons s ss => exact ih (by grind) depth
  | cons _ _ ihs ihss =>
    intro depth
    simp only [emitStmts, ihs (by grind) _, ihss (by grind) _]

theorem emitStmts_eq_of_forall {depth : Nat} {ss : List Stmt}
    (h : ∀ s ∈ ss, emitStmt ctx depth s = emitStmt ctx' depth s) :
    emitStmts ctx depth ss = emitStmts ctx' depth ss := by
  induction ss with
  | nil => rfl
  | cons s ss ih =>
    obtain ⟨hs, hss⟩ := forall_mem_cons.1 h
    rw [emitStmts, emitStmts, hs, ih hss]

theorem emitEach_eq_of_forall {α : Type} {f g : α → Except EmitError (List Line)} {as : List α}
    (h : ∀ a ∈ as, f a = g a) : emitEach f as = emitEach g as := by
  induction as with
  | nil => rfl
  | cons a as ih =>
    obtain ⟨ha, has⟩ := forall_mem_cons.1 h
    rw [emitEach, emitEach, ha, ih has]

theorem emitFunction_eq_of_makes {f : Function} {us : List Token} (h : Makes (.function f) us)
    (hus : ∀ t ∈ us, Formed t) : emitFunction ctx f = emitFunction ctx' f := by
  rw [emitFunction, emitFunction]
  cases h with
  | function _ _ _ _ _ hss | mainBlock _ hss => rw [sameLines_of_forms ctx ctx' hss (by grind) 1]

/-- **The lines of a program that was read from a source** are the same whatever tokens the emitter is
handed, and whatever imported names stand for. -/
theorem programLines_eq_of_readFrom (mode : Mode) {p : Program} (h : ReadFrom p) :
    programLines ctx mode p = programLines ctx' mode p := by
  have hstatements : emitStmts ctx 0 p.statements = emitStmts ctx' 0 p.statements := by
    refine emitStmts_eq_of_forall ctx ctx' fun s hs => ?_
    obtain ⟨us, hforms, hus⟩ := h.statements s hs
    exact sameLines_of_forms ctx ctx' hforms hus 0
  have hagain : emitBody ctx 0 (.block p.statements) = emitBody ctx' 0 (.block p.statements) := by
    cases hss : p.statements with
    | nil => rfl
    | cons s ss => rwa [emitBody, emitBody, ← hss]
  have hclasses : emitEach (emitClass ctx) p.classes = emitEach (emitClass ctx') p.classes := by
    refine emitEach_eq_of_forall fun c hc => ?_
    obtain ⟨us, hmakes, -⟩ := h.classes c hc
    rw [emitClass_of_makes ctx hmakes, emitClass_of_makes ctx' hmakes]
  have hfunctions : emitEach (fun f => (emitFunction ctx f).map (· ++ [⟨0, ""⟩])) p.functions =
      emitEach (fun f => (emitFunction ctx' f).map (· ++ [⟨0, ""⟩])) p.functions := by
    refine emitEach_eq_of_forall fun f hf => ?_
    obtain ⟨us, hmakes, hus⟩ := h.functions f hf
    rw [emitFunction_eq_of_makes ctx ctx' hmakes hus]
  rw [programLines, programLines, hstatements, hagain, hclasses, hfunctions]

theorem emit_eq_of_readFrom (mode : Mode) {p : Program} (h : ReadFrom p)
    (hvalues : ctx.tokens.map Token.value = ctx'.tokens.map Token.value) :
    emit ctx mode p = emit ctx' mode p := by
  have hbeginning : beginning ctx.tokens = beginning ctx'.tokens := by
    rw [beginning, beginning, mentionsDrawing, mentionsDrawing, hvalues]
  rw [emit, emit, programLines_eq_of_readFrom ctx ctx' mode h, hbeginning]

end

end Target

/-! ## Sources with the same tokens -/

def CompileError.unplaced : CompileError → CompileError
  | .parse e => .parse e.unplaced
  | e => e

/-- The classes of failures that a caller can tell apart. -/
inductive FailureClass where
  | script
  | range
  | value
  | part
  | sort
  | missing | alreadyThere | notDirectory | isDirectory | tooLong | notText
  | exhausted
deriving Repr, DecidableEq

def FileError.failureClass : FileError → FailureClass
  | .notFound _ | .lostDirectory => .missing
  | .alreadyThere _ => .alreadyThere
  | .notDirectory _ => .notDirectory
  | .isDirectory _ => .isDirectory
  | .tooLong _ => .tooLong
  | .zeroByte | .badPattern => .value
  | .notText _ => .notText

def CompileError.failureClass : CompileError → FailureClass
  | .scan .ranOff | .parse .ranOff => .range
  | .scan _ | .parse (.unexpected ..) | .parse (.misplaced _) => .script
  | .parse (.badNumber _) => .value
  | .parse .exhausted => .exhausted
  | .emit (.misfit .notStatement) | .emit (.misfit .notExpression) => .script
  | .emit (.misfit (.noPart ..)) => .part
  | .emit (.misfit _) => .sort
  | .emit (.unreadable e) | .file e => e.failureClass

theorem failureClass_unplaced (e : CompileError) : e.unplaced.failureClass = e.failureClass := by
  match e with
  | .parse (.unexpected ..) | .parse (.misplaced _) => rfl
  | .parse .ranOff | .parse (.badNumber _) | .parse .exhausted => rfl
  | .scan _ | .emit _ | .file _ => rfl

theorem compile_of_scan (fs : Files) (mode : Target.Mode) {source : String} {ts : List Token}
    (h : scan source = .ok ts) :
    compile fs mode source =
      match Parser.parse ts with
      | .error e => .error (.parse e)
      | .ok p =>
        ((Target.Context.ofFiles fs ts).bind fun ctx => Target.emit ctx mode p).mapError .emit := by
  rw [compile, readProgram, h]
  dsimp only
  cases Parser.parse ts <;> rfl

theorem compile_unplaced (fs : Files) (mode : Target.Mode) {source source' : String}
    {ts ts' : List Token} (h : scan source = .ok ts) (h' : scan source' = .ok ts')
    (hsame : ts.map Token.content = ts'.map Token.content) :
    (compile fs mode source).mapError CompileError.unplaced =
      (compile fs mode source').mapError CompileError.unplaced := by
  have hparse : (Parser.parse ts).mapError Parser.Failure.unplaced =
      (Parser.parse ts').mapError Parser.Failure.unplaced := by
    rw [← Parser.parse_unplaced, ← Parser.parse_unplaced, map_unplaced_eq_iff.2 hsame]
  rw [compile_of_scan fs mode h, compile_of_scan fs mode h']
  cases hp : Parser.parse ts with
  | error e =>
    cases hp' : Parser.parse ts' with
    | ok p' => rw [hp, hp'] at hparse; cases hparse
    | error e' =>
      rw [hp, hp'] at hparse
      exact congrArg (fun e => Except.error (CompileError.parse e)) (Except.error.inj hparse)
  | ok p =>
    cases hp' : Parser.parse ts' with
    | error e' => rw [hp, hp'] at hparse; cases hparse
    | ok p' =>
      rw [hp, hp'] at hparse
      obtain rfl : p = p' := Except.ok.inj hparse
      have hread : ReadFrom p := readFrom_of_readProgram (by rw [readProgram, h]; dsimp only; rw [hp])
      have hvalues : ts.map Token.value = ts'.map Token.value := by
        have := congrArg (map Prod.snd) hsame
        rwa [map_map, map_map] at this
      dsimp only [Target.Context.ofFiles]
      cases Package.Search.initial fs with
      | error e => rfl
      | ok search =>
        dsimp only [Except.bind]
        rw [Target.emit_eq_of_readFrom ⟨ts, _⟩ ⟨ts', _⟩ mode hread hvalues]

/-- **Layout independence.** Two sources whose tokens agree in kinds and texts, wherever these stand,
are compiled to the same text, or fail in the same class; and no line is put in front of the arguments
of any call in the program of a source. -/
theorem compile_eq_of_content_eq (fs : Files) (mode : Target.Mode) {source source' : String}
    {ts ts' : List Token} (h : scan source = .ok ts) (h' : scan source' = .ok ts')
    (hsame : ts.map Token.content = ts'.map Token.content) :
    (compile fs mode source).mapError CompileError.failureClass =
        (compile fs mode source').mapError CompileError.failureClass ∧
      ∀ p, readProgram source = .ok (ts, p) → ∀ callee arguments,
        .call callee arguments ∈ p.parts → Target.injectedLine? ts callee = none := by
  constructor
  · have hcompile := congrArg (Except.mapError CompileError.failureClass)
      (compile_unplaced fs mode h h' hsame)
    have hclass : ∀ r : Except CompileError String,
        (r.mapError CompileError.unplaced).mapError CompileError.failureClass =
          r.mapError CompileError.failureClass := by
      intro r
      cases r with
      | ok _ => rfl
      | error e => exact congrArg Except.error (failureClass_unplaced e)
    rwa [hclass, hclass] at hcompile
  · intro p hread callee arguments hmem
    exact Target.injectedLine?_eq_none ts
      ((readFrom_of_readProgram hread).callsProduced callee arguments hmem)

/-- A call on one line and the same call broken by a comment: the tokens stand at other places, and the
output is the same. -/
theorem compile_eq_of_content_eq_broken_call :
    ∃ ts ts', scan "py.print(x);" = .ok ts ∧ scan "py.print( # first\n  x);" = .ok ts' ∧ ts ≠ ts' ∧
      (compile ⟨[], ["work"], ["home"], false⟩ .file "py.print(x);").mapError
          CompileError.failureClass =
        (compile ⟨[], ["work"], ["home"], false⟩ .file "py.print( # first\n  x);").mapError
          CompileError.failureClass := by
  have hne : (scan "py.print(x);").toOption ≠ (scan "py.print( # first\n  x);").toOption := by decide +kernel
  have hsame : (scan "py.print(x);").toOption.map (·.map content) =
      (scan "py.print( # first\n  x);").toOption.map (·.map content) := by decide +kernel
  obtain ⟨ts, h⟩ := exists_eq_ok (by decide +kernel : (scan "py.print(x);").toOption.isSome = true)
  obtain ⟨ts', h'⟩ := exists_eq_ok (by decide +kernel : (scan "py.print( # first\n  x);").toOption.isSome = true)
  rw [h, h'] at hne hsame
  exact ⟨ts, ts', h, h', fun heq => hne (congrArg some heq),
    (compile_eq_of_content_eq _ .file h h' (Option.some.inj hsame)).1⟩

end ScriptWorkbench
