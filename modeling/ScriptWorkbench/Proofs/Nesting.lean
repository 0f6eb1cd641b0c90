/-
Indentation shows the nesting of a program (`compile_file_nesting`).

Under each header stands a block one level deeper with the lines of that construct's body and nothing else, or
with `pass` if it has none. What the nesting of a program is, a relation says that knows no depth (`Nests`).
The emitter writes the same tree at every depth (`Nests.emits`), and reading gives a tree back if its texts
are plain. For this the sources matter: an import could bring several lines at once, but no source has one as
a statement.
-/
import ScriptWorkbench.Proofs.CountedDepth
import ScriptWorkbench.Proofs.PlainTexts

namespace ScriptWorkbench

namespace Target

open Ast Token Grammar Text List

variable {ctx : Context} {p : Program} {tokens us : List Token} {part : Part} {lines : List Line}
  {ns : List String} {ss : List Stmt} {os : List Outline}

/-! ## The nesting of a program -/

/-- **The nesting of a part of a program:** what stands on which line, and in which block. -/
inductive Nests (tokens : List Token) : Part → List Outline → Prop where
  | letVar {name text : String} {e : Expr} : render tokens e = .ok text →
      Nests tokens (.statement (.letVar name e)) [.line (name ++ " = " ++ text)]
  | assign {name text : String} {e : Expr} : render tokens e = .ok text →
      Nests tokens (.statement (.assign name e)) [.line (name ++ " = " ++ text)]
  | returnNothing : Nests tokens (.statement (.result none)) [.line "return"]
  | returnValue {text : String} {e : Expr} : render tokens e = .ok text →
      Nests tokens (.statement (.result (some e))) [.line ("return " ++ text)]
  | expr {text : String} {e : Expr} : render tokens e = .ok text →
      Nests tokens (.statement (.expr e)) [.line text]
  | cond {text : String} {e : Expr} {ss : List Stmt} {b : Option Body} {inner os : List Outline} :
      render tokens e = .ok text → Nests tokens (.block ss) inner → Nests tokens (.otherwise b) os →
      Nests tokens (.statement (.cond e (.block ss) b)) (.block ("if " ++ text ++ ":") inner :: os)
  | forEach {name text : String} {e : Expr} {ss : List Stmt} {inner : List Outline} :
      render tokens e = .ok text → Nests tokens (.block ss) inner →
      Nests tokens (.statement (.forEach name e (.block ss)))
        [.block ("for " ++ name ++ " in " ++ text ++ ":") inner]
  | loop {text : String} {e : Expr} {ss : List Stmt} {inner : List Outline} :
      render tokens e = .ok text → Nests tokens (.block ss) inner →
      Nests tokens (.statement (.loop e (.block ss))) [.block ("while " ++ text ++ ":") inner]
  | guarded {ss ss' : List Stmt} {name : Option String} {inner inner' : List Outline} :
      Nests tokens (.block ss) inner → Nests tokens (.block ss') inner' →
      Nests tokens (.statement (.guarded (.block ss) name (.block ss')))
        [.block "try:" inner, .block (handlerHeader name) inner']
  | nothing : Nests tokens (.otherwise none) []
  | elseBlock {ss : List Stmt} {inner : List Outline} : Nests tokens (.block ss) inner →
      Nests tokens (.otherwise (some (.block ss))) [.block "else:" inner]
  | pass : Nests tokens (.block []) [.line "pass"]
  | block {s : Stmt} {ss : List Stmt} {os : List Outline} : Nests tokens (.closing (s :: ss)) os →
      Nests tokens (.block (s :: ss)) os
  | close : Nests tokens (.closing []) []
  | cons {s : Stmt} {ss : List Stmt} {os os' : List Outline} : Nests tokens (.statement s) os →
      Nests tokens (.closing ss) os' → Nests tokens (.closing (s :: ss)) (os ++ os')

def FunctionNests (tokens : List Token) (f : Function) (os : List Outline) : Prop :=
  ∃ ss inner, f.body = .block ss ∧ Nests tokens (.block ss) inner ∧
    os = [.line "@profiler", .block ("def " ++ f.name ++ "(" ++ ", ".intercalate f.parameters ++ "):") inner]

def classOutline (c : ClassDecl) : Outline := .block (classHeader c) [.line "pass"]

/-- **The nesting of a program:** the loose statements, the classes and the functions, each in order. -/
def ProgramNests (tokens : List Token) (p : Program) (os : List Outline) : Prop :=
  ∃ statements functions, Nests tokens (.closing p.statements) statements ∧
    List.Forall₂ (FunctionNests tokens) p.functions functions ∧
    os = statements ++ p.classes.map classOutline ++ functions.flatten

def emitPart (ctx : Context) (depth : Nat) : Part → Except EmitError (List Line)
  | .statement s => emitStmt ctx depth s
  | .otherwise b => emitAlternative ctx depth b
  | .block ss => emitBody ctx depth (.block ss)
  | .closing ss => emitStmts ctx depth ss

/-- **The emitter writes the nesting of a part,** at every depth. -/
theorem Nests.emits (h : Nests ctx.tokens part os) (depth : Nat) :
    emitPart ctx depth part = .ok (flatten depth os) := by
  -- for all depths at once, since a block is written one deeper than its header
  induction h generalizing depth with
  | letVar htext | assign htext | returnValue htext | expr htext =>
    rw [emitPart, emitStmt, htext]
    rfl
  | returnNothing | nothing | pass | close => rfl
  | cond htext _ _ ihblock ihother =>
    simp only [emitPart] at ihblock ihother
    rw [emitPart, emitStmt, htext]
    rw [ihblock, ihother]
    rfl
  | forEach htext _ ih | loop htext _ ih =>
    simp only [emitPart] at ih
    rw [emitPart, emitStmt, htext]
    rw [ih, flatten, flatten, append_nil]
    rfl
  | guarded _ _ ihbody ihhandler =>
    simp only [emitPart] at ihbody ihhandler
    rw [emitPart, emitStmt, ihbody, ihhandler]
    rw [flatten, flatten, flatten, append_nil]
    rfl
  | elseBlock _ ih =>
    simp only [emitPart] at ih
    rw [emitPart, emitAlternative, ih, flatten, flatten, append_nil]
    rfl
  | block _ ih =>
    simp only [emitPart] at ih
    rw [emitPart, emitBody, ih]
  | cons _ _ ihs ihss =>
    simp only [emitPart] at ihs ihss
    rw [emitPart, emitStmts, ihs, ihss, flatten_append]
    rfl

def Occupies : Part → List Outline → Prop
  | .statement _, os | .block _, os => os ≠ []
  | .closing ss, os => ss ≠ [] → os ≠ []
  | .otherwise _, _ => True

theorem Nests.full_and_occupies (h : Nests tokens part os) : Full os ∧ Occupies part os := by
  -- together, since that no block is empty is what its own part occupies
  induction h with
  | letVar | assign | returnNothing | returnValue | expr | pass =>
    exact ⟨.line .nothing, cons_ne_nil _ _⟩
  | cond _ _ _ ihblock ihother => exact ⟨.block ihblock.2 ihblock.1 ihother.1, cons_ne_nil _ _⟩
  | forEach _ _ ih | loop _ _ ih => exact ⟨.block ih.2 ih.1 .nothing, cons_ne_nil _ _⟩
  | guarded _ _ ihbody ihhandler =>
    exact ⟨.block ihbody.2 ihbody.1 (.block ihhandler.2 ihhandler.1 .nothing), cons_ne_nil _ _⟩
  | nothing => exact ⟨.nothing, trivial⟩
  | elseBlock _ ih => exact ⟨.block ih.2 ih.1 .nothing, trivial⟩
  | block _ ih => exact ⟨ih.1, ih.2 (cons_ne_nil _ _)⟩
  | close => exact ⟨.nothing, fun h => absurd rfl h⟩
  | cons _ _ ihs ihss => exact ⟨ihs.1.append ihss.1, fun _ => append_ne_nil_of_left_ne_nil ihs.2 _⟩

theorem full_classOutlines (cs : List ClassDecl) : Full (cs.map classOutline) := by
  induction cs with
  | nil => exact .nothing
  | cons c cs ih => exact .block (cons_ne_nil _ _) (.line .nothing) ih

theorem full_of_functionNests {fs : List Function} {oss : List (List Outline)}
    (h : List.Forall₂ (FunctionNests tokens) fs oss) : Full oss.flatten := by
  induction h with
  | nil => exact .nothing
  | cons hf _ ih =>
    obtain ⟨ss, inner, -, hinner, rfl⟩ := hf
    obtain ⟨hfull, hne⟩ := hinner.full_and_occupies
    exact .line (.block hne hfull ih)

theorem ProgramNests.full (h : ProgramNests tokens p os) : Full os := by
  obtain ⟨statements, functions, hstatements, hfunctions, rfl⟩ := h
  exact (hstatements.full_and_occupies.1.append (full_classOutlines p.classes)).append
    (full_of_functionNests hfunctions)

/-! ## The lines of a source -/

def AllSolid (os : List Outline) : Prop := ∀ depth, ∀ l ∈ flatten depth os, Solid l

theorem allSolid_line {text : String} (h : Firm text) : AllSolid [.line text] :=
  fun _ => forall_mem_singleton.2 h

theorem AllSolid.append {os' : List Outline} (h : AllSolid os) (h' : AllSolid os') :
    AllSolid (os ++ os') := by
  intro depth
  rw [flatten_append]
  exact forall_mem_append.2 ⟨h depth, h' depth⟩

theorem allSolid_block {header : String} {inner : List Outline} (h : Firm header)
    (hinner : AllSolid inner) : AllSolid [.block header inner] := by
  intro depth
  rw [flatten, flatten, append_nil]
  exact forall_mem_cons.2 ⟨h, hinner (depth + 1)⟩

theorem firm_handlerHeader {name : Option String} (h : Caught name us) (hus : ∀ t ∈ us, Formed t) :
    Firm (handlerHeader name) := by
  have hunnamed : Firm "except Exception:" := by decide
  have hnamed : Plain "except Exception as " := by decide
  cases h with
  | nothing => exact hunnamed
  | error ht =>
    rw [handlerHeader]
    split
    · exact hunnamed
    · exact (hnamed.append (blankless_name (hus _ (by simp)) ht).plain.inline).firm_append
        (by decide)

/-- **What is written of a part of a source has a nesting,** and its lines are solid. -/
theorem exists_nests_of_forms (ctx : Context) (h : Forms part us) (hus : ∀ t ∈ us, Formed t)
    {depth : Nat} (hlines : emitPart ctx depth part = .ok lines) :
    ∃ os, Nests ctx.tokens part os ∧ AllSolid os := by
  have hif : Plain "if " := by decide
  have hfor : Plain "for " := by decide
  have hwhile : Plain "while " := by decide
  have hreturn : Plain "return " := by decide
  have hcolon : Firm ":" := by decide
  -- over the grammar and not over the trees: only the tokens of a part say that its texts are firm
  induction h generalizing depth lines with
  | letVar _ hname _ he _ | assign hname _ he _ =>
    obtain ⟨text, htext, -⟩ := bind_eq_ok hlines
    have hfirm := firm_of_derives ctx.tokens he (by grind) text htext
    have hnamePlain := (blankless_name (hus _ (by simp)) hname).plain
    exact ⟨_, by constructor; exact htext, allSolid_line ((hnamePlain.append (by decide)).firm_append hfirm)⟩
  | returnNothing => exact ⟨_, .returnNothing, allSolid_line (by decide)⟩
  | returnValue _ he _ =>
    obtain ⟨text, htext, -⟩ := bind_eq_ok hlines
    have hfirm := firm_of_derives ctx.tokens he (by grind) text htext
    exact ⟨_, .returnValue htext, allSolid_line (hreturn.firm_append hfirm)⟩
  | cond _ he _ _ ihblock ihother =>
    obtain ⟨text, htext, hlines⟩ := bind_eq_ok hlines
    obtain ⟨body, hbody, hlines⟩ := bind_eq_ok hlines
    obtain ⟨other, hother, -⟩ := bind_eq_ok hlines
    have hfirm := firm_of_derives ctx.tokens he (by grind) text htext
    obtain ⟨inner, hinner, hinnerSolid⟩ := ihblock (by grind) hbody
    obtain ⟨os, hos, hosSolid⟩ := ihother (by grind) hother
    exact ⟨_, .cond htext hinner hos,
      (allSolid_block ((hif.append hfirm.1.inline).firm_append hcolon) hinnerSolid).append hosSolid⟩
  | forEach _ hname _ he _ ih =>
    obtain ⟨text, htext, hlines⟩ := bind_eq_ok hlines
    obtain ⟨body, hbody, -⟩ := bind_eq_ok hlines
    have hfirm := firm_of_source ctx.tokens he (by grind) text htext
    have hnamePlain := (blankless_name (hus _ (by simp)) hname).plain
    obtain ⟨inner, hinner, hinnerSolid⟩ := ih (by grind) hbody
    exact ⟨_, .forEach htext hinner, allSolid_block ((((hfor.append hnamePlain.inline).append
      (by decide)).append hfirm.1.inline).firm_append hcolon) hinnerSolid⟩
  | loop _ he _ ih =>
    obtain ⟨text, htext, hlines⟩ := bind_eq_ok hlines
    obtain ⟨body, hbody, -⟩ := bind_eq_ok hlines
    have hfirm := firm_of_derives ctx.tokens he (by grind) text htext
    obtain ⟨inner, hinner, hinnerSolid⟩ := ih (by grind) hbody
    exact ⟨_, .loop htext hinner,
      allSolid_block ((hwhile.append hfirm.1.inline).firm_append hcolon) hinnerSolid⟩
  | guarded _ _ _ hcaught _ ihbody ihhandler =>
    obtain ⟨body, hbody, hlines⟩ := bind_eq_ok hlines
    obtain ⟨handler, hhandler, -⟩ := bind_eq_ok hlines
    obtain ⟨inner, hinner, hinnerSolid⟩ := ihbody (by grind) hbody
    obtain ⟨inner', hinner', hinnerSolid'⟩ := ihhandler (by grind) hhandler
    have hheader := firm_handlerHeader hcaught (by grind)
    exact ⟨_, .guarded hinner hinner', (allSolid_block (by decide) hinnerSolid).append
      (allSolid_block hheader hinnerSolid')⟩
  | expr he _ =>
    obtain ⟨text, htext, -⟩ := bind_eq_ok hlines
    have hfirm := firm_of_derives ctx.tokens he (by grind) text htext
    exact ⟨_, .expr htext, allSolid_line hfirm⟩
  | nothing => exact ⟨_, .nothing, fun _ l hl => absurd hl not_mem_nil⟩
  | elseBlock _ _ ih =>
    obtain ⟨body, hbody, -⟩ := bind_eq_ok hlines
    obtain ⟨inner, hinner, hinnerSolid⟩ := ih (by grind) hbody
    exact ⟨_, .elseBlock hinner, allSolid_block (by decide) hinnerSolid⟩
  | elseIf =>
    -- what follows `else if` is no block, and a branch that is no block has no lines
    cases hlines
  | @block ss _ _ _ _ ih =>
    cases ss with
    | nil => exact ⟨_, .pass, allSolid_line (by decide)⟩
    | cons s ss =>
      obtain ⟨os, hos, hfirm⟩ := ih (by grind) hlines
      exact ⟨os, .block hos, hfirm⟩
  | close => exact ⟨_, .close, fun _ l hl => absurd hl not_mem_nil⟩
  | cons _ _ ihs ihss =>
    obtain ⟨first, hfirst, hlines⟩ := bind_eq_ok hlines
    obtain ⟨others, hothers, -⟩ := bind_eq_ok hlines
    obtain ⟨os, hos, hfirm⟩ := ihs (by grind) hfirst
    obtain ⟨os', hos', hfirm'⟩ := ihss (by grind) hothers
    exact ⟨_, .cons hos hos', hfirm.append hfirm'⟩

/-! ## The lines of a program -/

def Shows (lines : List Line) (os : List Outline) : Prop :=
  (∀ l ∈ lines, Readable l) ∧ lines.filter (·.text != "") = flatten 0 os

theorem shows_of_solid (h : ∀ l ∈ flatten 0 os, Solid l) :
    Shows (flatten 0 os) os :=
  ⟨fun l hl => .inr (h l hl), filter_of_solid h⟩

theorem shows_nil : Shows [] [] := ⟨fun _ hl => absurd hl not_mem_nil, rfl⟩

theorem Shows.append {lines' : List Line} {os' : List Outline} (h : Shows lines os)
    (h' : Shows lines' os') : Shows (lines ++ lines') (os ++ os') := by
  refine ⟨forall_mem_append.2 ⟨h.1, h'.1⟩, ?_⟩
  rw [filter_append, h.2, h'.2, flatten_append]

theorem shows_blankLine : Shows [blankLine] [] := ⟨forall_mem_singleton.2 (.inl rfl), rfl⟩

theorem exists_nests_of_statements (h : ∀ s ∈ ss, ∃ us, Statement s us ∧ ∀ t ∈ us, Formed t)
    (hlines : emitStmts ctx 0 ss = .ok lines) :
    ∃ os, Nests ctx.tokens (.closing ss) os ∧ lines = flatten 0 os ∧ ∀ l ∈ lines, Solid l := by
  have hnests : ∃ os, Nests ctx.tokens (.closing ss) os ∧ AllSolid os := by
    induction ss generalizing lines with
    | nil => exact ⟨_, .close, fun _ l hl => absurd hl not_mem_nil⟩
    | cons s ss ih =>
      obtain ⟨⟨us, hs, hus⟩, hss⟩ := forall_mem_cons.1 h
      obtain ⟨first, hfirst, hlines⟩ := bind_eq_ok hlines
      obtain ⟨others, hothers, -⟩ := bind_eq_ok hlines
      obtain ⟨os, hos, hsolid⟩ := exists_nests_of_forms ctx hs hus hfirst
      obtain ⟨os', hos', hsolid'⟩ := ih hss hothers
      exact ⟨_, .cons hos hos', hsolid.append hsolid'⟩
  obtain ⟨os, hos, hsolid⟩ := hnests
  obtain rfl := Except.ok.inj (hlines.symm.trans (hos.emits 0))
  exact ⟨os, hos, rfl, hsolid 0⟩

theorem shows_statements (h : ∀ s ∈ ss, ∃ us, Statement s us ∧ ∀ t ∈ us, Formed t)
    (hlines : emitStmts ctx 0 ss = .ok lines) :
    ∃ os, Nests ctx.tokens (.closing ss) os ∧ Shows lines os := by
  obtain ⟨os, hos, rfl, hsolid⟩ := exists_nests_of_statements h hlines
  exact ⟨os, hos, shows_of_solid hsolid⟩

theorem solid_emitStmts (h : ∀ s ∈ ss, ∃ us, Statement s us ∧ ∀ t ∈ us, Formed t) (hss : ss ≠ [])
    (hlines : emitStmts ctx 0 ss = .ok lines) : (∀ l ∈ lines, Solid l) ∧ lines ≠ [] := by
  obtain ⟨os, hos, rfl, hsolid⟩ := exists_nests_of_statements h hlines
  exact ⟨hsolid, flatten_ne_nil (hos.full_and_occupies.2 hss) 0⟩

theorem firm_classHeader {c : ClassDecl} (h : Makes (.declaration c) us) (hus : ∀ t ∈ us, Formed t) :
    Firm (classHeader c) := by
  have hclass : Plain "class " := by decide
  cases h with
  | declaration _ hname hparent _ =>
    have hhead := hclass.append (blankless_name (hus _ (by simp)) hname).plain.inline
    cases hparent with
    | nothing => exact hhead.firm_append (by decide)
    | extending _ hu =>
      exact ((hhead.append (by decide)).append
        (blankless_name (hus _ (by simp)) hu).plain.inline).firm_append (by decide)

theorem emitClasses_eq {cs : List ClassDecl}
    (h : ∀ c ∈ cs, ∃ us, Makes (.declaration c) us ∧ ∀ t ∈ us, Formed t)
    (hlines : emitEach (emitClass ctx) cs = .ok lines) :
    lines = flatten 0 (cs.map classOutline) ∧ ∀ l ∈ lines, Solid l := by
  induction cs generalizing lines with
  | nil =>
    cases hlines
    exact ⟨rfl, fun _ hl => absurd hl not_mem_nil⟩
  | cons c cs ih =>
    obtain ⟨⟨us, hmakes, hus⟩, hcs⟩ := forall_mem_cons.1 h
    rw [emitEach, emitClass_of_makes ctx hmakes] at hlines
    obtain ⟨first, hfirst, hlines⟩ := bind_eq_ok hlines
    obtain ⟨others, hothers, hlines⟩ := bind_eq_ok hlines
    cases hfirst
    cases hlines
    obtain ⟨rfl, hsolid⟩ := ih hcs hothers
    have hpass : Firm "pass" := by decide
    exact ⟨rfl, forall_mem_cons.2 ⟨firm_classHeader hmakes hus, forall_mem_cons.2 ⟨hpass, hsolid⟩⟩⟩

theorem shows_classes {cs : List ClassDecl}
    (h : ∀ c ∈ cs, ∃ us, Makes (.declaration c) us ∧ ∀ t ∈ us, Formed t)
    (hlines : emitEach (emitClass ctx) cs = .ok lines) : Shows lines (cs.map classOutline) := by
  obtain ⟨rfl, hsolid⟩ := emitClasses_eq h hlines
  exact shows_of_solid hsolid

theorem inline_of_names (h : Names ns us) (hus : ∀ t ∈ us, Formed t) : ∀ n ∈ ns, Inline n := by
  induction h with
  | one ht => exact forall_mem_singleton.2 (blankless_name (hus _ (by simp)) ht).plain.inline
  | more ht _ _ ih =>
    exact forall_mem_cons.2 ⟨(blankless_name (hus _ (by simp)) ht).plain.inline, ih (by grind)⟩

theorem inline_of_parameters (h : Parameters ns us) (hus : ∀ t ∈ us, Formed t) :
    Inline (", ".intercalate ns) := by
  cases h with
  | nothing => decide
  | names hnames => exact inline_intercalate (inline_of_names hnames hus)

theorem shows_function_block {name : String} (hname : Inline name)
    (hns : Inline (", ".intercalate ns)) (hss : Block ss us) (hus : ∀ t ∈ us, Formed t)
    (hlines : emitFunction ctx ⟨name, ns, .block ss⟩ = .ok lines) :
    ∃ os, FunctionNests ctx.tokens ⟨name, ns, .block ss⟩ os ∧ Shows lines os := by
  have hdef : Plain "def " := by decide
  have hprofiler : Firm "@profiler" := by decide
  obtain ⟨body, hbody, hlines⟩ := bind_eq_ok hlines
  cases hlines
  obtain ⟨inner, hinner, hsolid⟩ := exists_nests_of_forms ctx hss hus hbody
  obtain rfl := Except.ok.inj (hbody.symm.trans (hinner.emits 1))
  have hheader : Firm ("def " ++ name ++ "(" ++ ", ".intercalate ns ++ "):") :=
    (((hdef.append hname).append (by decide)).append hns).firm_append (by decide)
  have hall := (allSolid_line hprofiler).append (allSolid_block hheader hsolid) 0
  refine ⟨_, ⟨ss, inner, rfl, hinner, rfl⟩, ?_⟩
  have hlines : (⟨0, "@profiler"⟩ : Line) ::
      ⟨0, "def " ++ name ++ "(" ++ ", ".intercalate ns ++ "):"⟩ :: flatten 1 inner =
        flatten 0 [.line "@profiler",
          .block ("def " ++ name ++ "(" ++ ", ".intercalate ns ++ "):") inner] := by
    rw [flatten, flatten, flatten, append_nil]
    rfl
  rw [hlines]
  exact shows_of_solid hall

theorem shows_function {f : Function} (h : Makes (.function f) us) (hus : ∀ t ∈ us, Formed t)
    (hlines : emitFunction ctx f = .ok lines) :
    ∃ os, FunctionNests ctx.tokens f os ∧ Shows lines os := by
  cases h with
  | function _ hname _ hns _ hss =>
    exact shows_function_block (blankless_name (hus _ (by simp)) hname).plain.inline
      (inline_of_parameters hns (by grind)) hss
      (by grind) hlines
  | mainBlock _ hss =>
    exact shows_function_block (by decide) (by decide) hss
      (by grind) hlines

theorem shows_functions {fs : List Function}
    (h : ∀ f ∈ fs, ∃ us, Makes (.function f) us ∧ ∀ t ∈ us, Formed t)
    (hlines : emitEach (fun f => (emitFunction ctx f).map (· ++ [⟨0, ""⟩])) fs = .ok lines) :
    ∃ oss, List.Forall₂ (FunctionNests ctx.tokens) fs oss ∧ Shows lines oss.flatten := by
  induction fs generalizing lines with
  | nil =>
    cases hlines
    exact ⟨[], .nil, shows_nil⟩
  | cons f fs ih =>
    obtain ⟨⟨us, hmakes, hus⟩, hfs⟩ := forall_mem_cons.1 h
    obtain ⟨first, hfirst, hlines⟩ := bind_eq_ok hlines
    obtain ⟨others, hothers, hlines⟩ := bind_eq_ok hlines
    cases hlines
    obtain ⟨oss, hoss, hshows⟩ := ih hfs hothers
    obtain ⟨body, hf, rfl⟩ := map_eq_ok hfirst
    obtain ⟨os, hos, hbody⟩ := shows_function hmakes hus hf
    -- the blank line behind the function shows nothing
    have hwhole := (hbody.append shows_blankLine).append hshows
    rw [append_nil] at hwhole
    exact ⟨os :: oss, .cons hos hoss, hwhole⟩

/-- **The lines of a program of a source show its nesting.** -/
theorem exists_programNests (hread : ReadFrom p) (hlines : programLines ctx .file p = .ok lines) :
    ∃ os, ProgramNests ctx.tokens p os ∧ Shows lines os := by
  obtain ⟨statements, hstatements, hlines⟩ := bind_eq_ok hlines
  obtain ⟨classes, hclasses, hlines⟩ := bind_eq_ok hlines
  obtain ⟨functions, hfunctions, hlines⟩ := bind_eq_ok hlines
  cases hlines
  obtain ⟨os, hos, hshows⟩ := shows_statements hread.statements hstatements
  obtain ⟨oss, hoss, hshows'⟩ := shows_functions hread.functions hfunctions
  exact ⟨_, ⟨os, oss, hos, hoss, rfl⟩, (hshows.append (shows_classes hread.classes hclasses)).append hshows'⟩

/-! ## The text of a file -/

theorem endsVisibly_trimEnd {s : String} (h : trimEnd s ≠ "") : EndsVisibly (trimEnd s) := by
  have htoList : (trimEnd s).toList = (s.toList.reverse.dropWhile isBlank).reverse := String.toList_ofList
  cases hcs : s.toList.reverse.dropWhile isBlank with
  | nil =>
    rw [hcs] at htoList
    exact absurd (String.toList_eq_nil_iff.1 htoList) h
  | cons c cs =>
    refine ⟨c, ?_, ?_⟩
    · rw [htoList, hcs, reverse_cons, getLast?_concat]
    · have hhead := head?_dropWhile_not isBlank s.toList.reverse
      rw [hcs] at hhead
      exact hhead

theorem endsVisibly_intercalate {parts : List String} (hne : parts ≠ [])
    (h : EndsVisibly (parts.getLast hne)) (separator : String) :
    EndsVisibly (separator.intercalate parts) := by
  induction parts with
  | nil => exact absurd rfl hne
  | cons part parts ih =>
    cases parts with
    | nil => rwa [String.intercalate_singleton]
    | cons next parts =>
      rw [String.intercalate_cons_cons]
      exact (ih (cons_ne_nil _ _) h).append _

theorem endsVisibly_beginning (tokens : List Token) : EndsVisibly (beginning tokens) := by
  rw [beginning]
  split
  · exact EndsVisibly.append _ (by decide)
  · exact endsVisibly_intercalate (cons_ne_nil _ _) ⟨'c', rfl, by decide⟩ "\n"

theorem emit_file_text (hlines : programLines ctx .file p = .ok lines) :
    emit ctx .file p = .ok ("\n\n".intercalate
      ([beginning ctx.tokens, bodyText lines, mainGuard p].filter (· != "")) ++ "\n") := by
  have hends : ∀ part ∈ [beginning ctx.tokens, bodyText lines, mainGuard p].filter (· != ""),
      EndsVisibly part := by
    intro part hpart
    obtain ⟨hmem, hne⟩ := mem_filter.1 hpart
    rw [bne_iff_ne] at hne
    simp only [mem_cons, not_mem_nil, or_false] at hmem
    obtain rfl | rfl | rfl := hmem
    · exact endsVisibly_beginning ctx.tokens
    · exact endsVisibly_trimEnd hne
    · rw [mainGuard] at hne ⊢
      split at hne
      next hmain => rw [if_pos hmain]; exact ⟨')', rfl, by decide⟩
      next => exact absurd rfl hne
  have hne : [beginning ctx.tokens, bodyText lines, mainGuard p].filter (· != "") ≠ [] := by
    rw [filter_cons, if_pos (endsVisibly_beginning _).bne_empty]
    exact cons_ne_nil _ _
  -- the last part ends visibly, so that trimming the whole text takes nothing away
  rw [emit, hlines]
  exact congrArg (fun text => Except.ok (text ++ "\n"))
    (endsVisibly_intercalate hne (hends _ (getLast_mem hne)) "\n\n").trimEnd_eq

/-- **A file that shows the nesting of its program:** each line is one line of the text, and the body,
read by the offside rule, is the nesting of the program, without an empty block. -/
structure ShowsNesting (ctx : Context) (p : Program) (text : String) (lines : List Line)
    (os : List Outline) : Prop where
  written : programLines ctx .file p = .ok lines
  text_eq : text = "\n\n".intercalate
    ([beginning ctx.tokens, bodyText lines, mainGuard p].filter (· != "")) ++ "\n"
  unbroken : ∀ l ∈ lines, ∀ c ∈ lineBreaks, c ∉ l.render.toList
  read : outline? (bodyText lines) = some os
  nests : ProgramNests ctx.tokens p os
  full : Full os

theorem exists_showsNesting (hread : ReadFrom p) {text : String} (h : emit ctx .file p = .ok text) :
    ∃ lines os, ShowsNesting ctx p text lines os := by
  cases hlines : programLines ctx .file p with
  | error e => rw [emit, hlines] at h; cases h
  | ok lines =>
    obtain ⟨os, hos, hreadable, hflatten⟩ := exists_programNests hread hlines
    refine ⟨lines, os, hlines, ?_, fun l hl c hc => (hreadable l hl).inline.not_mem hc, ?_, hos, hos.full⟩
    · rw [emit_file_text hlines] at h
      exact (Except.ok.inj h).symm
    · rw [outline?_bodyText hreadable, hflatten, offside_flatten hos.full]

end Target

open Target

/-- **Indentation shows the nesting.** Whatever source is compiled to a file, the file shows the nesting
of the program that was read. In this nesting a block holds the lines that the emitter writes for it, at
whatever depth; and with the depth kept in a counter the same lines are written, where the counter is the
same before and behind every statement, function and class. -/
theorem compile_file_nesting (fs : Files) {source text : String}
    (h : compile fs .file source = .ok text) :
    ∃ ts p ctx lines os, readProgram source = .ok (ts, p) ∧ Context.ofFiles fs ts = .ok ctx ∧
      ShowsNesting ctx p text lines os ∧
      (∀ part os', Nests ctx.tokens part os' → ∀ depth, emitPart ctx depth part = .ok (flatten depth os')) ∧
      (∀ s, Level (visitStmt ctx s)) ∧ (∀ f, Level (visitFunction ctx f)) ∧
      (∀ c, Level (visitClass ctx c)) ∧ visitProgram ctx p ⟨0, []⟩ = .ok ⟨0, lines⟩ := by
  obtain ⟨ts, p, ctx, hread, hctx, htext⟩ := compile_eq_ok h
  obtain ⟨lines, os, hshows⟩ := exists_showsNesting (readFrom_of_readProgram hread) htext
  refine ⟨ts, p, ctx, lines, os, hread, hctx, hshows, fun part os' hos' => hos'.emits,
    fun s => (visitStmt_adds ctx s).level, fun f => (visitFunction_adds ctx f).level,
    fun c => (visitClass_adds ctx c).level, ?_⟩
  rw [visitProgram_eq, hshows.written]
  rfl

/-- An empty block, a class whose body is lost, and a string literal with a line feed and spaces in it. -/
theorem compile_file_nesting_empty_block :
    ∃ text, compile ⟨[], ["work"], ["home"], false⟩ .file
        "x = 1; class A \x7b f(); \x7d main \x7b if x \x7b \x7d else \x7b y = \"1\\n  2\"; \x7d \x7d" =
          .ok text ∧
      ∃ p ctx lines os, ShowsNesting ctx p text lines os ∧
        visitProgram ctx p ⟨0, []⟩ = .ok ⟨0, lines⟩ ∧
        bodyText lines = "x = 1\nclass A:\n    pass\n@profiler\ndef main():\n    if x:\n        pass\n" ++
          "    else:\n        y = '1\\n  2'" := by
  let fs : Files := ⟨[], ["work"], ["home"], false⟩
  let source : String :=
    "x = 1; class A \x7b f(); \x7d main \x7b if x \x7b \x7d else \x7b y = \"1\\n  2\"; \x7d \x7d"
  have hcompiles : (compile fs .file source).toOption.isSome = true := by decide +kernel
  have hbody : ((readProgram source).toOption.bind fun r => (Context.ofFiles fs r.1).toOption.bind
      fun ctx => (programLines ctx .file r.2).toOption.map bodyText) =
      some ("x = 1\nclass A:\n    pass\n@profiler\ndef main():\n    if x:\n        pass\n" ++
        "    else:\n        y = '1\\n  2'") := by decide +kernel
  obtain ⟨text, hcompile⟩ := exists_eq_ok hcompiles
  obtain ⟨ts, p, ctx, lines, os, hread, hctx, hshows, -, -, -, -, hvisit⟩ :=
    compile_file_nesting fs hcompile
  rw [hread] at hbody
  dsimp only [Except.toOption, Option.bind] at hbody
  rw [hctx] at hbody
  dsimp only at hbody
  rw [hshows.written] at hbody
  exact ⟨text, hcompile, p, ctx, lines, os, hshows, hvisit, Option.some.inj hbody⟩

end ScriptWorkbench
