/-
Sources that the scanner runs off.

They are those that are cut short where a token has to begin (`scan_eq_ranOff_iff`). Unlike other failures to
scan this is no error of the script, so whoever expects nothing else does not catch it
(`lexical_failure_caught_iff`).
-/
import ScriptWorkbench.CommandLine.Run
import ScriptWorkbench.Proofs.Actions
import ScriptWorkbench.Proofs.Dialogue
import ScriptWorkbench.Proofs.Tiling

namespace ScriptWorkbench

open List

namespace Token

variable {p : Position} {cs : List Char}

/-! ## Sources that are cut short -/

/-- **The text is cut short before a token comes about:** it ends inside a comment, right behind one, or
behind a backslash in a string literal. -/
inductive CutShort : List Char → Prop where
  | inComment {glued body : List Char} : Glued glued → ¬['*', '/'] <:+: body →
      CutShort (glued ++ '/' :: '*' :: body)
  | behindComment {glued : List Char} : Glued glued → glued ≠ [] → CutShort glued
  | behindBackslash {glued body value : List Char} : Glued glued → Spells body value →
      CutShort (glued ++ '"' :: (body ++ ['\\']))

def RunsOff (cs : List Char) : Prop := ∃ left, TilesUpTo left cs ∧ CutShort left

/-! ## One token -/

theorem skipBlock_eq_ranOff_iff :
    skipBlock p cs = .error .ranOff ↔ ¬['*', '/'] <:+: cs := by
  constructor
  · intro h
    fun_induction skipBlock p cs with
    | case1 p => decide
    | case2 p cs => cases h
    | case3 p c cs hne ih =>
      intro hmarks
      obtain hstart | hinside := infix_cons_iff.1 hmarks
      · obtain ⟨rfl, more, rfl⟩ := cons_prefix_cons.1 hstart
        exact hne more rfl rfl
      · exact ih h hinside
  · intro h
    cases hskip : skipBlock p cs with
    | error e => rw [skipBlock_eq_error hskip]
    | ok r =>
      obtain ⟨body, -, rfl⟩ := skipBlock_split hskip
      exact absurd ⟨body, r.2, by simp⟩ h

theorem stringTail_eq_ranOff {start : Position} (h : stringTail start p cs = .error .ranOff) :
    ∃ body value, Spells body value ∧ cs = body ++ ['\\'] := by
  fun_induction stringTail start p cs with
  | case1 | case3 | case5 p cs => cases h
  | case2 p => exact ⟨[], [], .nothing, rfl⟩
  | case4 p e cs c he ih =>
    obtain ⟨body, value, hbody, rfl⟩ := ih (map_eq_error h)
    exact ⟨'\\' :: e :: body, c :: value, .escaped he hbody, rfl⟩
  | case6 p c cs hne hc ih =>
    obtain ⟨body, value, hbody, rfl⟩ := ih (map_eq_error h)
    exact ⟨c :: body, c :: value, .plain hc hne hbody, rfl⟩

theorem cutShort_of_nextToken (hne : cs ≠ []) (h : nextToken p cs = .error .ranOff) :
    CutShort cs := by
  fun_induction nextToken p cs with
  | case1 => exact absurd rfl hne
  | case2 p cs e he =>
    cases h
    exact .inComment .nothing (skipBlock_eq_ranOff_iff.1 he)
  | case3 p cs r hr ih =>
    -- what the comment leaves is cut short as well, or there is nothing left
    obtain ⟨body, hbody, rfl⟩ := skipBlock_split hr
    have hglue {glued : List Char} (hglued : Glued glued) :
        Glued ('/' :: '*' :: (body ++ '*' :: '/' :: glued)) := .comment hbody hglued
    by_cases hnil : r.2 = []
    · rw [hnil]
      exact .behindComment (hglue .nothing) (cons_ne_nil _ _)
    · have hcut := ih hnil h
      generalize r.2 = rest at hcut
      cases hcut with
      | inComment hglued hopen =>
        have hpiece := CutShort.inComment (hglue hglued) hopen
        simpa using hpiece
      | behindComment hglued _ => exact .behindComment (hglue hglued) (cons_ne_nil _ _)
      | behindBackslash hglued hspells =>
        have hpiece := CutShort.behindBackslash (hglue hglued) hspells
        simpa using hpiece
  | case4 p c cs hstart =>
    obtain ⟨rfl, htail⟩ | ⟨-, hrefused, -⟩ := lexeme_eq_error h
    · obtain ⟨body, value, hspells, rfl⟩ := stringTail_eq_ranOff htail
      exact .behindBackslash .nothing hspells
    · cases hrefused

theorem nextToken_of_cutShort (h : CutShort cs) (p : Position) :
    nextToken p cs = .error .ranOff := by
  cases h with
  | inComment hglued hopen =>
    rw [nextToken_glued hglued, nextToken_block, skipBlock_eq_ranOff_iff.2 hopen]
    rfl
  | behindComment hglued _ =>
    have hend := nextToken_glued hglued p []
    rw [append_nil] at hend
    rw [hend, nextToken]
  | behindBackslash hglued hspells =>
    rw [nextToken_glued hglued, nextToken_lexeme (by rintro ⟨⟩), lexeme_quote, stringTail_of_spells hspells]
    rfl

theorem CutShort.atToken (h : CutShort cs) : AtToken cs := by
  cases h with
  | inComment hglued _ => exact hglued.atToken fun _ => ⟨'/', _, rfl, rfl, rfl⟩
  | behindComment hglued hne =>
    have hfront : AtToken (cs ++ []) := hglued.atToken fun hnil => absurd hnil hne
    rwa [append_nil] at hfront
  | behindBackslash hglued _ => exact hglued.atToken fun _ => ⟨'"', _, rfl, rfl, rfl⟩

/-! ## The whole source -/

theorem runsOff_of_scanFrom (h : scanFrom p cs = .error .ranOff) : RunsOff cs := by
  obtain ⟨left, us, q, htiles, -, ⟨-, hok⟩ | ⟨hleft, e, hnext, herror⟩⟩ := scanFrom_cases p cs
  · rw [hok] at h
    cases h
  · rw [herror] at h
    cases h
    exact ⟨left, htiles, cutShort_of_nextToken hleft.ne_nil hnext⟩

theorem scanFrom_of_runsOff (h : RunsOff cs) (p : Position) : scanFrom p cs = .error .ranOff := by
  obtain ⟨left, htiles, hleft⟩ := h
  obtain ⟨us, q, hrun⟩ := htiles.scanFrom p
  rw [hrun.whole, hleft.atToken.scanFrom, nextToken_of_cutShort hleft]
  rfl

/-- **The scanner runs off a source exactly if the source is cut short.** -/
theorem scan_eq_ranOff_iff (source : String) :
    scan source = .error .ranOff ↔ RunsOff source.toList :=
  ⟨runsOff_of_scanFrom, fun h => scanFrom_of_runsOff h .start⟩

end Token

/-! ## Who catches it -/

open Token

theorem compile_of_scan_error {source : String} {e : ScanError} (h : scan source = .error e)
    (fs : Files) (mode : Target.Mode) : compile fs mode source = .error (.scan e) :=
  compile_of_error (readProgram_of_scan_error h) fs mode

namespace CommandLine

variable {s : Surroundings} {path source : String} {w : World}

def Finds (s : Surroundings) (fs : Files) (path source : String) : Prop :=
  if path = "-" then s.input = source else fs.readText (Path.ofString path).toString = .ok source

theorem perform_readSource (h : Finds s w.files path source) :
    (readSource s path).perform w = (.ok source, w) := by
  rw [Finds] at h
  rw [readSource]
  split at h
  next hpath =>
    subst hpath h
    rfl
  next hpath =>
    rw [if_neg (by simpa using hpath), onFiles, Action.perform_within]
    have hread : (Files.reading (Path.ofString path).toString).perform w.files = (.ok source, w.files) := by
      rw [Files.reading, Action.perform_bind_ok (Action.perform_get _), h]
      rfl
    rw [hread]
    rfl

theorem perform_compileSource {e : CompileError} (h : Finds s w.files path source)
    (he : compile w.files .file source = .error e) :
    (compileSource s path).perform w = (.error (.compile e), w) := by
  rw [compileSource, Action.perform_bind_ok (perform_readSource h),
    Action.perform_bind_ok (Action.perform_get w), he]
  rfl

theorem perform_expecting {a : Doing Crash Nat} {w w' : World} {e : Crash}
    (h : a.perform w = (.error e, w')) :
    ((expecting a).perform w).1 = if e.isExpected then .ok 1 else .error e := by
  rw [expecting, Action.perform_tryCatch_error h]
  split <;> rfl

theorem perform_warnAboutName (path : String) (w : World) :
    ∃ w', (warnAboutName path : Doing Crash Unit).perform w = (.ok (), w') ∧ w'.files = w.files := by
  rw [warnAboutName]
  split
  · exact ⟨_, rfl, rfl⟩
  · exact ⟨w, rfl, rfl⟩

def Handles (v : Values) (path : String) : Prop :=
  v.text? "command" ∈ [some "run", some "transpile"] ∧ v.text? "source" = some path

theorem carryOut_of_handles {v : Values} (h : Handles v path) (s : Surroundings) :
    carryOut s v = runScript s v path ∨ carryOut s v = transpileScript s v := by
  obtain ⟨hcommand, hsource⟩ := h
  rw [mem_cons, mem_singleton] at hcommand
  unfold carryOut
  obtain hrun | htranspile := hcommand
  · rw [hrun, hsource]
    exact .inl rfl
  · rw [htranspile]
    exact .inr rfl

theorem perform_carryOut {v : Values} {e : CompileError} (hv : Handles v path)
    (h : Finds s w.files path source) (he : compile w.files .file source = .error e) :
    ((carryOut s v).perform w).1 = if (Crash.compile e).isExpected then .ok 1 else .error (.compile e) := by
  obtain hrun | htranspile := carryOut_of_handles hv s
  · obtain ⟨w', hwarn, hfiles⟩ := perform_warnAboutName path w
    rw [← hfiles] at h he
    rw [hrun]
    refine @perform_expecting _ _ w' _ ?_
    rw [Action.perform_bind_ok hwarn]
    exact Action.perform_bind_error (perform_compileSource h he) _
  · rw [htranspile]
    refine @perform_expecting _ _ w _ ?_
    rw [hv.2]
    exact Action.perform_bind_error (perform_compileSource h he) _

end CommandLine

/-- The outcome `r` of a failure to scan: it is `handled`, unless the source is cut short, and then it is
`uncaught`. -/
def CaughtUnlessCut {α : Type} (source : String) (handled uncaught r : α) : Prop :=
  (r = uncaught ↔ RunsOff source.toList) ∧ (r = handled ↔ ¬RunsOff source.toList)

theorem caughtUnlessCut_of_eq {α : Type} {source : String} {e : ScanError} {handled uncaught r : α}
    (h : scan source = .error e) (hne : handled ≠ uncaught)
    (hr : r = if e = .ranOff then uncaught else handled) : CaughtUnlessCut source handled uncaught r := by
  have hoff : RunsOff source.toList ↔ e = .ranOff := by rw [← scan_eq_ranOff_iff, h, Except.error.injEq]
  rw [CaughtUnlessCut, hoff, hr]
  split
  next he => simp [he, hne.symm]
  next he => simp [he, hne]

/-- **Failures to scan are errors of the script, unless the source is cut short.** For every source: the
scanner runs off it if and only if it is cut short. If the source cannot be scanned, a command that runs or
compiles it reports that and gives the code one, and a dialogue that has gathered it goes on; but if it is
cut short, the command ends with the failure and the dialogue breaks down. -/
theorem lexical_failure_caught_iff (source : String) :
    (scan source = .error .ranOff ↔ RunsOff source.toList) ∧
      ∀ e, scan source = .error e →
        (∀ (s : CommandLine.Surroundings) (w : CommandLine.World) (v : CommandLine.Values) (path : String),
          CommandLine.Handles v path → CommandLine.Finds s w.files path source →
          CaughtUnlessCut source (.ok 1) (.error (.compile (.scan .ranOff)))
            ((CommandLine.carryOut s v).perform w).1) ∧
        ∀ (w : Repl.Surroundings) (s : Repl.State) (line : String), Repl.IsKept line →
          s.sourceWith line = source →
          CaughtUnlessCut source .continue (.breakDown (.compile (.scan .ranOff)))
            (Repl.enter w s line).1 := by
  refine ⟨scan_eq_ranOff_iff source, fun e he => ⟨fun s w v path hv hfinds => ?_, ?_⟩⟩
  · refine caughtUnlessCut_of_eq he (by simp) ?_
    rw [CommandLine.perform_carryOut hv hfinds (compile_of_scan_error he _ _)]
    cases e <;> rfl
  · rintro w s line hkept rfl
    refine caughtUnlessCut_of_eq he (by simp) ?_
    rw [Repl.enter_of_kept hkept, Repl.gather_of_error (compile_of_scan_error he _ _)]
    cases e with
    | ranOff => rfl
    | unexpected | unterminated | badEscape => exact Repl.scriptError_fst _ _

/-- A source that is nothing but a closed comment. -/
theorem lexical_failure_caught_iff_comment :
    scan "/* */" = .error .ranOff ∧
      ∃ s w v, CommandLine.Handles v "-" ∧ CommandLine.Finds s w.files "-" "/* */" ∧
        ((CommandLine.carryOut s v).perform w).1 = .error (.compile (.scan .ranOff)) ∧
        ∃ surroundings, Repl.IsKept "/* */" ∧
          (Repl.enter surroundings .initial "/* */").1 = .breakDown (.compile (.scan .ranOff)) := by
  have hcut : RunsOff "/* */".toList :=
    ⟨_, .start _, .behindComment (@Glued.comment [' '] [] (by decide) .nothing) (List.cons_ne_nil _ _)⟩
  have hscan := (lexical_failure_caught_iff "/* */").1.2 hcut
  obtain ⟨hcommand, hdialogue⟩ := (lexical_failure_caught_iff "/* */").2 _ hscan
  let s : CommandLine.Surroundings := ⟨"", "/* */", fun _ => none, none⟩
  let v : CommandLine.Values := [("command", .text "transpile"), ("source", .text "-")]
  have hv : CommandLine.Handles v "-" := ⟨by decide +kernel, by decide +kernel⟩
  have hkept : Repl.IsKept "/* */" := by decide +kernel
  exact ⟨hscan, s, .ofFiles default, v, hv, rfl, (hcommand s _ v "-" hv rfl).1.2 hcut,
    ⟨default, "", [], fun _ => none, fun _ => none⟩, hkept, (hdialogue _ .initial _ hkept rfl).1.2 hcut⟩

/-- A string literal that is cut short behind a backslash, a comment that is never closed and one that
nothing follows: the scanner runs off each of them. -/
theorem scan_runs_off_cut_sources :
    scan "\"\\" = .error .ranOff ∧ scan "/* c" = .error .ranOff ∧ scan "/* c */" = .error .ranOff := by
  refine ⟨(scan_eq_ranOff_iff _).2 ?_, (scan_eq_ranOff_iff _).2 ?_, (scan_eq_ranOff_iff _).2 ?_⟩
  · exact ⟨_, .start _, @CutShort.behindBackslash [] [] [] .nothing .nothing⟩
  · exact ⟨_, .start _, @CutShort.inComment [] [' ', 'c'] .nothing (by decide)⟩
  · exact ⟨_, .start _,
      .behindComment (@Glued.comment [' ', 'c', ' '] [] (by decide) .nothing) (List.cons_ne_nil _ _)⟩

end ScriptWorkbench
