/-
What a source comes to at the prompt.

For a source that came out of the scanner few failures are left: the parser names a token or meets a number
that is none, and the emitter fails at a displaced statement or not at all, as long as the current directory
is there. If there is code for the prompt it has something in it.
-/
import ScriptWorkbench.Proofs.PromptMode
import ScriptWorkbench.Proofs.TokenBounds
import ScriptWorkbench.Proofs.WholePrograms
import ScriptWorkbench.Proofs.Writability

namespace ScriptWorkbench

open Ast Token Grammar List

variable {source : String} {ts : List Token} {fs : Files}

/-! ## Failures of the parser -/

theorem readProgram_of_scan_error {e : ScanError} (h : scan source = .error e) :
    readProgram source = .error (.scan e) := by
  rw [readProgram, h]

theorem readProgram_of_parse_error {e : Parser.Failure} (hscan : scan source = .ok ts)
    (hparse : Parser.parse ts = .error e) :
    readProgram source = .error (.parse e) := by
  rw [readProgram, hscan]
  dsimp only
  rw [hparse]

theorem compile_of_error {e : CompileError} (h : readProgram source = .error e) (fs : Files)
    (mode : Target.Mode) : compile fs mode source = .error e := by
  rw [compile, h]

/-! ## Failures of the emitter -/

theorem exists_context (h : fs.adrift = false) (ts : List Token) :
    ∃ ctx, Target.Context.ofFiles fs ts = .ok ctx := by
  rw [Target.Context.ofFiles, Package.Search.initial, Files.workingPath, h]
  exact ⟨_, rfl⟩

theorem compile_written (hfs : fs.adrift = false) (mode : Target.Mode) {p : Program}
    (h : readProgram source = .ok (ts, p)) :
    (p.displaced = [] → ∃ code, compile fs mode source = .ok code) ∧
      ∀ s rest, p.displaced = s :: rest →
        compile fs mode source = .error (.emit (.misfit (.noPart s.sort "statements"))) := by
  obtain ⟨ctx, hctx⟩ := exists_context hfs ts
  have hwritten := Target.emit_written ctx mode (readFrom_of_readProgram h)
  rw [compile_of_readProgram h, hctx]
  constructor
  · intro hnone
    obtain ⟨code, hcode⟩ := hwritten.eq_ok_iff.2 hnone
    exact ⟨code, congrArg (Except.mapError CompileError.emit) hcode⟩
  · intro s rest hsome
    rw [hsome] at hwritten
    exact congrArg (Except.mapError CompileError.emit) hwritten

namespace Text

variable {s : String}

def Visible (s : String) : Prop := ∃ c ∈ s.toList, isBlank c = false

theorem EndsVisibly.visible (h : EndsVisibly s) : Visible s := by
  obtain ⟨c, hlast, hc⟩ := h
  exact ⟨c, mem_of_getLast? hlast, hc⟩

theorem Visible.trim_ne (h : Visible s) : trim s ≠ "" := by
  obtain ⟨c, hmem, hc⟩ := h
  intro htrim
  rw [isBlank_of_trim htrim c hmem] at hc
  cases hc

theorem Visible.trimEnd (h : Visible s) : Visible (trimEnd s) := by
  obtain ⟨c, hmem, hc⟩ := h
  refine ⟨c, ?_, hc⟩
  rw [Text.trimEnd, String.toList_ofList, dropEndWhile, mem_reverse]
  have hall : c ∈ s.toList.reverse.takeWhile isBlank ++ s.toList.reverse.dropWhile isBlank := by
    rw [takeWhile_append_dropWhile]
    exact mem_reverse.2 hmem
  obtain htake | hdrop := mem_append.1 hall
  · have hblank := all_eq_true.1 all_takeWhile c htake
    rw [hc] at hblank
    cases hblank
  · exact hdrop

theorem Visible.append (h : Visible s) (r t : String) : Visible (r ++ s ++ t) := by
  obtain ⟨c, hmem, hc⟩ := h
  exact ⟨c, by simp [hmem], hc⟩

theorem Visible.intercalate {sep : String} {texts : List String} (hs : s ∈ texts) (h : Visible s) :
    Visible (sep.intercalate texts) := by
  induction texts with
  | nil => cases hs
  | cons t texts ih =>
    cases texts with
    | nil =>
      cases mem_singleton.1 hs
      rwa [String.intercalate_singleton]
    | cons u texts =>
      rw [String.intercalate_cons_cons]
      obtain rfl | hs := mem_cons.1 hs
      · have hfirst := h.append "" (sep ++ sep.intercalate (u :: texts))
        rwa [← String.append_assoc] at hfirst
      · have hlater := (ih hs).append (t ++ sep) ""
        rwa [String.append_empty] at hlater

end Text

namespace Target

open Text

variable {ctx : Context} {lines : List Line}

theorem visible_bodyText {l : Line} (hl : l ∈ lines) (h : Visible l.text) :
    Visible (bodyText lines) := by
  have hline : Visible l.render := by
    have hindented := h.append (String.ofList (replicate (4 * l.depth) ' ')) ""
    rwa [String.append_empty] at hindented
  exact (Visible.intercalate (mem_map_of_mem hl) hline).trimEnd

theorem exists_visible_emitFunction {f : Function} (h : emitFunction ctx f = .ok lines) :
    ∃ l ∈ lines, Visible l.text := by
  obtain ⟨body, -, h⟩ := bind_eq_ok h
  cases h
  exact ⟨_, mem_cons_self, '@', by decide, by decide⟩

theorem exists_visible_programLines {p : Program} (hread : ReadFrom p)
    (h : programLines ctx .prompt p = .ok lines) :
    ∃ l ∈ lines, Visible l.text := by
  obtain ⟨loose, hloose, h⟩ := bind_eq_ok h
  obtain ⟨classes, hclasses, h⟩ := bind_eq_ok h
  have hlast : ∃ functions, lines = loose ++ classes ++ functions ∧ ∃ l ∈ functions, Visible l.text := by
    split at h
    · obtain ⟨body, hbody, h⟩ := bind_eq_ok h
      cases h
      refine ⟨body, rfl, ?_⟩
      by_cases hnone : p.statements = []
      · rw [hnone] at hbody
        cases hbody
        exact ⟨_, mem_singleton.2 rfl, 'p', by decide, by decide⟩
      · rw [emitBody_block ctx 0 hnone] at hbody
        obtain ⟨hsolid, hne⟩ := solid_emitStmts hread.statements hnone hbody
        obtain ⟨l, rest, rfl⟩ := exists_cons_of_ne_nil hne
        exact ⟨l, mem_cons_self, (hsolid l mem_cons_self).2.visible⟩
    next hsome =>
      -- with functions, the first of them starts with its mark
      obtain ⟨functions, hfunctions, h⟩ := bind_eq_ok h
      cases h
      refine ⟨functions, rfl, ?_⟩
      cases hfs : p.functions with
      | nil => exact absurd ⟨rfl, by rw [hfs]; rfl⟩ hsome
      | cons f fs =>
        rw [hfs] at hfunctions
        obtain ⟨first, hfirst, hfunctions⟩ := bind_eq_ok hfunctions
        obtain ⟨others, -, hfunctions⟩ := bind_eq_ok hfunctions
        cases hfunctions
        obtain ⟨body, hf, rfl⟩ := map_eq_ok hfirst
        obtain ⟨l, hl, hseen⟩ := exists_visible_emitFunction hf
        exact ⟨l, by simp [hl], hseen⟩
  obtain ⟨functions, rfl, l, hl, hseen⟩ := hlast
  exact ⟨l, mem_append_right _ hl, hseen⟩

theorem emit_prompt_visible {p : Program} (hread : ReadFrom p) {code : String}
    (h : emit ctx .prompt p = .ok code) : Visible code := by
  obtain ⟨lines, hlines, h⟩ := bind_eq_ok h
  cases h
  obtain ⟨l, hl, hseen⟩ := exists_visible_programLines hread hlines
  exact visible_bodyText hl hseen

end Target

/-- **Code for the prompt is never blank.** -/
theorem trim_ne_of_compile {code : String} (h : compile fs .prompt source = .ok code) :
    Text.trim code ≠ "" := by
  obtain ⟨ts, p, ctx, hread, -, hemit⟩ := compile_eq_ok h
  exact (Target.emit_prompt_visible (readFrom_of_readProgram hread) hemit).trim_ne

end ScriptWorkbench
