/-
What the prompt is given to run.

One would expect the prompt to be given the body of the file. It is given the loose statements a second time
behind it. The two modes trim their output; but the lines of a source are solid
(`exists_nests_of_statements`), so that nothing is trimmed away and both texts can be given in full.
-/
import ScriptWorkbench.Proofs.Nesting

namespace ScriptWorkbench

namespace Target

open Ast Token Grammar Text List

variable {ctx : Context} {p : Program} {lines : List Line} {ss : List Stmt}

/-! ## Lines as one text -/

theorem endsVisibly_of_lines (hne : lines ≠ []) (h : ∀ l ∈ lines, EndsVisibly l.text) :
    EndsVisibly (lineText lines) := by
  rw [← dropLast_concat_getLast hne]
  exact endsVisibly_lineText _ (h _ (getLast_mem hne))

theorem bodyText_eq (hne : lines ≠ []) (h : ∀ l ∈ lines, EndsVisibly l.text) :
    bodyText lines = lineText lines :=
  (endsVisibly_of_lines hne h).trimEnd_eq

/-! ## The two modes -/

theorem emitBody_block (ctx : Context) (depth : Nat) (hss : ss ≠ []) :
    emitBody ctx depth (.block ss) = emitStmts ctx depth ss := by
  match ss, hss with
  | s :: ss, _ => rw [emitBody]

theorem programLines_eq (ctx : Context) (hstatements : p.statements ≠ [])
    (hfunctions : p.functions = []) (mode : Mode) :
    programLines ctx mode p = (emitStmts ctx 0 p.statements).bind fun loose =>
      (emitEach (emitClass ctx) p.classes).bind fun classes =>
        .ok (loose ++ classes ++ if mode = .prompt then loose else []) := by
  rw [programLines, hfunctions]
  cases hloose : emitStmts ctx 0 p.statements with
  | error _ => rfl
  | ok loose =>
    cases emitEach (emitClass ctx) p.classes with
    | error _ => rfl
    | ok classes =>
      cases mode with
      | file => rfl
      | prompt =>
        rw [emitBody_block ctx 0 hstatements, hloose]
        rfl

theorem emit_file_eq (hlines : programLines ctx .file p = .ok lines) (hfunctions : p.functions = [])
    (hne : lines ≠ []) (hend : ∀ l ∈ lines, EndsVisibly l.text) :
    emit ctx .file p = .ok (beginning ctx.tokens ++ "\n\n" ++ lineText lines ++ "\n") := by
  have hguard : mainGuard p = "" := by rw [mainGuard, hfunctions]; rfl
  have hparts : [beginning ctx.tokens, bodyText lines, mainGuard p].filter (· != "") =
      [beginning ctx.tokens, lineText lines] := by
    rw [bodyText_eq hne hend, hguard, filter_cons, if_pos (endsVisibly_beginning _).bne_empty,
      filter_cons, if_pos (endsVisibly_of_lines hne hend).bne_empty]
    rfl
  rw [emit_file_text hlines, hparts, String.intercalate_cons_cons, String.intercalate_singleton]

theorem emit_prompt_eq (hlines : programLines ctx .prompt p = .ok lines) (hne : lines ≠ [])
    (hend : ∀ l ∈ lines, EndsVisibly l.text) : emit ctx .prompt p = .ok (lineText lines) := by
  rw [emit, hlines, ← bodyText_eq hne hend]
  rfl

/-- **The two modes of the emitter** on a program with a loose statement and without functions: both fail
in the same way, or the prompt's text is that of the file's lines and then the loose lines again. -/
theorem emit_modes (ctx : Context) (hread : ReadFrom p) (hstatements : p.statements ≠ [])
    (hfunctions : p.functions = []) :
    (∃ e, ∀ mode, emit ctx mode p = .error e) ∨
      ∃ loose classes, emitStmts ctx 0 p.statements = .ok loose ∧
        emitEach (emitClass ctx) p.classes = .ok classes ∧
        emit ctx .file p = .ok (beginning ctx.tokens ++ "\n\n" ++ lineText (loose ++ classes) ++ "\n") ∧
        emit ctx .prompt p = .ok (lineText (loose ++ classes) ++ "\n" ++ lineText loose) := by
  have hlines := programLines_eq ctx hstatements hfunctions
  have hfail (e : EmitError) (hmode : ∀ mode, programLines ctx mode p = .error e) (mode : Mode) :
      emit ctx mode p = .error e := by
    rw [emit, hmode]
    rfl
  cases hloose : emitStmts ctx 0 p.statements with
  | error e =>
    rw [hloose] at hlines
    exact .inl ⟨e, hfail e hlines⟩
  | ok loose =>
    cases hclasses : emitEach (emitClass ctx) p.classes with
    | error e =>
      rw [hloose, hclasses] at hlines
      exact .inl ⟨e, hfail e hlines⟩
    | ok classes =>
      rw [hloose, hclasses] at hlines
      obtain ⟨hsolid, hne⟩ := solid_emitStmts hread.statements hstatements hloose
      have hbodyne : loose ++ classes ≠ [] := append_ne_nil_of_left_ne_nil hne classes
      have hend : ∀ l ∈ loose, EndsVisibly l.text := fun l hl => (hsolid l hl).2
      have hbody : ∀ l ∈ loose ++ classes, EndsVisibly l.text :=
        forall_mem_append.2 ⟨hend, fun l hl => ((emitClasses_eq hread.classes hclasses).2 l hl).2⟩
      refine .inr ⟨loose, classes, rfl, rfl, ?_, ?_⟩
      · exact emit_file_eq ((hlines .file).trans (congrArg Except.ok (append_nil _)))
          hfunctions hbodyne hbody
      · rw [← lineText_append hbodyne hne]
        exact emit_prompt_eq (hlines .prompt) (append_ne_nil_of_left_ne_nil hbodyne loose)
          (forall_mem_append.2 ⟨hbody, hend⟩)

end Target

open Target Text

/-- **The prompt runs every loose statement twice.** Take a source with a loose statement and without
functions. Either it fails in both modes, in the same way; or the file has a body behind its fixed
beginning, and the prompt is given that body and then the lines of the loose statements once more. The
two are never the same. -/
theorem compile_prompt_repeats_statements (fs : Files) {source : String} {ts : List Token}
    {p : Program} (h : readProgram source = .ok (ts, p)) (hstatements : p.statements ≠ [])
    (hfunctions : p.functions = []) :
    (∃ e, compile fs .file source = .error e ∧ compile fs .prompt source = .error e) ∨
      ∃ ctx loose classes, Context.ofFiles fs ts = .ok ctx ∧
        emitStmts ctx 0 p.statements = .ok loose ∧
        emitEach (emitClass ctx) p.classes = .ok classes ∧
        compile fs .file source = .ok (beginning ts ++ "\n\n" ++ lineText (loose ++ classes) ++ "\n") ∧
        compile fs .prompt source = .ok (lineText (loose ++ classes) ++ "\n" ++ lineText loose) ∧
        compile fs .prompt source ≠ .ok (lineText (loose ++ classes)) := by
  rw [compile_of_readProgram h, compile_of_readProgram h]
  cases hctx : Context.ofFiles fs ts with
  | error e => exact .inl ⟨_, rfl, rfl⟩
  | ok ctx =>
    dsimp only [Except.bind]
    obtain ⟨e, hfail⟩ | ⟨loose, classes, hloose, hclasses, hfile, hprompt⟩ :=
      emit_modes ctx (readFrom_of_readProgram h) hstatements hfunctions
    · rw [hfail, hfail]
      exact .inl ⟨.emit e, rfl, rfl⟩
    · rw [hfile, hprompt, tokens_of_ofFiles hctx]
      refine .inr ⟨ctx, loose, classes, rfl, hloose, hclasses, rfl, rfl, fun hsame => ?_⟩
      -- the prompt's text is longer by a line end at least
      have hlength := congrArg String.length (Except.ok.inj hsame)
      simp only [String.length_append] at hlength
      have hnewline : "\n".length = 1 := rfl
      omega

/-- A statement and a class: the class stands between the two copies of the statement. -/
theorem compile_prompt_repeats_statement_around_class :
    ∃ ts p loose classes, readProgram "x = 1; class A \x7b\x7d" = .ok (ts, p) ∧ p.statements ≠ [] ∧
      p.functions = [] ∧ compile ⟨[], ["work"], ["home"], false⟩ .prompt "x = 1; class A \x7b\x7d" =
        .ok (lineText (loose ++ classes) ++ "\n" ++ lineText loose) ∧
      compile ⟨[], ["work"], ["home"], false⟩ .prompt "x = 1; class A \x7b\x7d" =
        .ok "x = 1\nclass A:\n    pass\nx = 1" := by
  obtain ⟨⟨ts, p⟩, hread, hp⟩ := exists_eq_ok_of_map (fun r => (r.2.statements.length, r.2.functions.length))
    (by decide +kernel : (readProgram "x = 1; class A \x7b\x7d").toOption.map _ = some (1, 0))
  obtain ⟨hone, hnone⟩ := Prod.mk.inj hp
  have hstatements := List.ne_nil_of_length_eq_add_one hone
  have hfunctions := List.length_eq_zero_iff.1 hnone
  have htext : compile ⟨[], ["work"], ["home"], false⟩ .prompt "x = 1; class A \x7b\x7d" =
      .ok "x = 1\nclass A:\n    pass\nx = 1" := eq_ok_of_toOption (by decide +kernel)
  obtain ⟨e, -, he⟩ | ⟨ctx, loose, classes, -, -, -, -, hprompt, -⟩ :=
    compile_prompt_repeats_statements ⟨[], ["work"], ["home"], false⟩ hread hstatements hfunctions
  · rw [htext] at he
    cases he
  · exact ⟨ts, p, loose, classes, hread, hstatements, hfunctions, hprompt, htext⟩

/-- `let x = 1;` is one line in a file and two at the prompt. -/
theorem compile_let_once_and_twice :
    compile ⟨[], ["work"], ["home"], false⟩ .file "let x = 1;" = .ok (preamble ++ "\n\nx = 1\n") ∧
      compile ⟨[], ["work"], ["home"], false⟩ .prompt "let x = 1;" = .ok "x = 1\nx = 1" := by
  let ts : List Token := [⟨.letWord, "let", ⟨1, 1⟩⟩, ⟨.identifier, "x", ⟨1, 5⟩⟩,
    ⟨.equal, "=", ⟨1, 7⟩⟩, ⟨.number, "1", ⟨1, 9⟩⟩, ⟨.semicolon, ";", ⟨1, 10⟩⟩,
    ⟨.endOfInput, "", ⟨1, 11⟩⟩]
  let p : Program := ⟨[], [.letVar "x" (.literal (.int 1))], []⟩
  have hread : readProgram "let x = 1;" = .ok (ts, p) :=
    readProgram_of_parse (eq_ok_of_toOption (by decide +kernel)) rfl
  refine ⟨?_, eq_ok_of_toOption (by decide +kernel)⟩
  rw [compile_of_readProgram hread]
  cases hctx : Context.ofFiles ⟨[], ["work"], ["home"], false⟩ ts with
  | error e => cases hctx
  | ok ctx =>
    -- the fixed beginning is too long a text to be computed, so the general form is used
    have hend : ∀ l ∈ [(⟨0, "x = 1"⟩ : Line)], EndsVisibly l.text :=
      List.forall_mem_singleton.2 ⟨'1', rfl, by decide⟩
    have hlines : programLines ctx .file p = .ok [⟨0, "x = 1"⟩] := rfl
    have hplain : beginning ts = preamble := if_neg (by decide +kernel)
    have hemit := emit_file_eq hlines rfl (List.cons_ne_nil _ _) hend
    rw [tokens_of_ofFiles hctx, hplain] at hemit
    have htext : preamble ++ "\n\n" ++ lineText [⟨0, "x = 1"⟩] ++ "\n" =
        preamble ++ "\n\nx = 1\n" := by
      rw [String.append_assoc, String.append_assoc]
      rfl
    rw [← htext]
    exact congrArg (Except.mapError CompileError.emit) hemit

end ScriptWorkbench
