/-
How a dialogue ends (`run_ends`): where the user leaves it, or at a fatal line.

A line is fatal if the lines gathered with it run off their end while they are scanned, hold a number that is
none, or put a statement behind `else if` that is no block; or if the code that comes of them, or the start of
a program that the line asks for, fails in a way that is no fault of a script and not that it is no code.
-/
import ScriptWorkbench.Proofs.PromptSource
import ScriptWorkbench.Repl

namespace ScriptWorkbench.Repl

variable {cause : Breakdown} {w : Surroundings} {line : String}

/-! ## Lines -/

def IsExit (line : String) : Prop := Text.lower (Text.trim line) ∈ ["exit", "exit;"]

def IsCommand (line : String) : Prop :=
  Text.lower (Text.trim line) ∈ ["cls", "clear", "!vars", "!globals"] ∨
    Text.startsWith (Text.trim line) "!" = true

def IsKept (line : String) : Prop := Text.trim line ≠ "" ∧ ¬IsExit line ∧ ¬IsCommand line

instance (line : String) : Decidable (IsExit line) := inferInstanceAs (Decidable (_ ∈ _))

instance (line : String) : Decidable (IsCommand line) := inferInstanceAs (Decidable (_ ∨ _))

instance (line : String) : Decidable (IsKept line) := inferInstanceAs (Decidable (_ ∧ _))

/-- The state of the script is the same: what is gathered, and what was reported, executed and prompted
for. -/
structure State.SameScript (s s' : State) : Prop where
  gathered : s'.gathered = s.gathered
  reported : s'.reported = s.reported
  executions : s'.executions = s.executions
  prompts : s'.prompts = s.prompts

theorem isCommand_of_launch? {l : Launch} (h : launch? w (Text.trim line) = some l) :
    IsCommand line := by
  rw [launch?] at h
  simp only [Bool.or_eq_true, Bool.and_eq_true, beq_iff_eq] at h
  split at h
  next hclear => exact .inl (by obtain h | h := hclear <;> simp [h])
  next =>
    split at h
    next hbang => exact .inr hbang.1.1
    next => cases h

/-- A line with no program to start: it is kept if it is neither blank nor a command. -/
theorem isKept_of_launch? (hexit : ¬IsExit line) (hnone : launch? w (Text.trim line) = none)
    (hblank : Text.trim line ≠ "") (hvars : ¬asksForBindings (Text.trim line) = true)
    (hbang : ¬Text.startsWith (Text.trim line) "!" = true) : IsKept line := by
  refine ⟨hblank, hexit, ?_⟩
  rw [asksForBindings, Bool.or_eq_true, beq_iff_eq, beq_iff_eq] at hvars
  simp only [IsCommand, List.mem_cons, List.not_mem_nil, or_false]
  rintro ((h | h | h | h) | h)
  · rw [launch?, h] at hnone
    cases hnone
  · rw [launch?, h] at hnone
    cases hnone
  · exact hvars (.inl h)
  · exact hvars (.inr h)
  · exact hbang h

/-- **What is done about a line:** the dialogue is left, the line is gathered, a program is started, or
something is printed. -/
theorem enter_cases (w : Surroundings) (s : State) (line : String) :
    (IsExit line ∧ enter w s line = (.leave, s)) ∨
      (IsKept line ∧ enter w s line = gather w s line) ∨
      (¬IsExit line ∧ ¬IsKept line ∧
        ((∃ l, launch? w (Text.trim line) = some l ∧ enter w s line = launch w s l) ∨
          launch? w (Text.trim line) = none ∧
            ∃ s', enter w s line = (.continue, s') ∧ s.SameScript s')) := by
  -- the branches of the definition, in its order; the line is kept if none of them takes it
  generalize hr : enter w s line = r
  rw [enter] at hr
  simp only [Bool.or_eq_true, beq_iff_eq] at hr
  split at hr
  next hexit =>
    subst hr
    exact .inl ⟨by simpa [IsExit] using hexit, rfl⟩
  next hexit =>
    have hstay : ¬IsExit line := by simpa [IsExit] using hexit
    cases hlaunch : launch? w (Text.trim line) with
    | some l =>
      rw [hlaunch] at hr
      subst hr
      exact .inr (.inr ⟨hstay, fun h => h.2.2 (isCommand_of_launch? hlaunch), .inl ⟨l, rfl, rfl⟩⟩)
    | none =>
      rw [hlaunch] at hr
      dsimp only at hr
      split at hr
      next hblank =>
        subst hr
        exact .inr (.inr ⟨hstay, fun h => h.1 hblank, .inr ⟨rfl, s, rfl, rfl, rfl, rfl, rfl⟩⟩)
      next hblank =>
        split at hr
        next hvars =>
          subst hr
          have hcommand : IsCommand line := by
            rw [asksForBindings, Bool.or_eq_true, beq_iff_eq, beq_iff_eq] at hvars
            exact .inl (by obtain h | h := hvars <;> simp [h])
          exact .inr (.inr ⟨hstay, fun h => h.2.2 hcommand, .inr ⟨rfl, _, rfl, rfl, rfl, rfl, rfl⟩⟩)
        next hvars =>
          split at hr
          next hbang =>
            subst hr
            exact .inr (.inr ⟨hstay, fun h => h.2.2 (.inr hbang), .inr ⟨rfl, _, rfl, rfl, rfl, rfl, rfl⟩⟩)
          next hbang =>
            subst hr
            exact .inr (.inl ⟨isKept_of_launch? hstay hlaunch hblank hvars hbang, rfl⟩)

theorem enter_of_kept (h : IsKept line) (w : Surroundings) (s : State) :
    enter w s line = gather w s line := by
  obtain ⟨hexit, -⟩ | ⟨-, henter⟩ | ⟨-, hnot, -⟩ := enter_cases w s line
  · exact absurd hexit h.2.1
  · exact henter
  · exact absurd h hnot

theorem enter_of_not_kept {s : State} (hnot : ¬IsKept line) (hstay : ¬IsExit line)
    (hstarts : w.launchFailure s.launches.length = none) :
    ∃ s', enter w s line = (.continue, s') ∧ s.SameScript s' := by
  obtain ⟨hexit, -⟩ | ⟨hkept, -⟩ | ⟨-, -, ⟨l, -, henter⟩ | ⟨-, h⟩⟩ := enter_cases w s line
  · exact absurd hexit hstay
  · exact absurd hkept hnot
  · rw [henter, launch, hstarts]
    exact ⟨_, rfl, rfl, rfl, rfl, rfl⟩
  · exact h

/-! ## Fatal lines -/

def State.sourceWith (s : State) (line : String) : String := "\n".intercalate (s.gathered ++ [line])

section

variable {w : Surroundings} {s : State} {line : String}

theorem gather_of_error {e : CompileError} (h : compile w.files .prompt (s.sourceWith line) = .error e) :
    gather w s line = if e.isScriptError then
        scriptError { s with gathered := s.gathered ++ [line] } e.message
      else (.breakDown (.compile e), { s with gathered := s.gathered ++ [line] }) := by
  rw [State.sourceWith] at h
  rw [gather]
  rw [h]

theorem gather_of_ok {code : String} (h : compile w.files .prompt (s.sourceWith line) = .ok code) :
    gather w s line = runCode w { s with gathered := s.gathered ++ [line] } code := by
  rw [State.sourceWith] at h
  rw [gather]
  rw [h]

theorem scriptError_fst (s : State) (message : String) : (scriptError s message).1 = .continue := by
  rw [scriptError]
  split <;> rfl

end

/-! ## Reports -/

/-- No prompt is shown, and nothing is reported or the dialogue goes on with nothing gathered. -/
def Settles (s : State) (r : Next × State) : Prop :=
  r.2.prompts = s.prompts ∧ (r.2.reported = s.reported ∨ r.1 = .continue ∧ r.2.gathered = [])

section

variable (w : Surroundings) (s : State)

theorem settles_scriptError (message : String) : Settles s (scriptError s message) := by
  rw [scriptError]
  split
  · exact ⟨rfl, .inl rfl⟩
  · exact ⟨rfl, .inr ⟨rfl, rfl⟩⟩

theorem settles_settle (r : Raised) : Settles s (settle s r) := by
  rw [settle]
  cases r.sort with
  | script | badCode => exact ⟨rfl, .inr ⟨rfl, rfl⟩⟩
  | brokenOff | missingFile | other => exact ⟨rfl, .inl rfl⟩

theorem settles_launch (l : Launch) : Settles s (launch w s l) := by
  rw [launch]
  cases w.launchFailure s.launches.length with
  | none => exact ⟨rfl, .inl rfl⟩
  | some r => exact settles_settle { s with launches := _ } r

theorem settles_runCode (code : String) : Settles s (runCode w s code) := by
  rw [runCode]
  split
  · exact ⟨rfl, .inl rfl⟩
  · rw [execute]
    cases w.failure s.executions.length with
    | none => exact ⟨rfl, .inl rfl⟩
    | some r =>
      dsimp only
      rw [afterFailure]
      split
      · exact ⟨rfl, .inl rfl⟩
      · exact settles_settle { s with bindings := _, executions := _ } r

theorem settles_gather (line : String) : Settles s (gather w s line) := by
  cases hcompile : compile w.files .prompt (s.sourceWith line) with
  | ok code =>
    rw [gather_of_ok hcompile]
    exact settles_runCode w { s with gathered := _ } code
  | error e =>
    rw [gather_of_error hcompile]
    split
    · exact settles_scriptError { s with gathered := _ } e.message
    · exact ⟨rfl, .inl rfl⟩

theorem settles_enter (line : String) : Settles s (enter w s line) := by
  obtain ⟨-, h⟩ | ⟨-, h⟩ | ⟨-, -, ⟨l, -, h⟩ | ⟨-, s', h, hsame⟩⟩ := enter_cases w s line <;> rw [h]
  · exact ⟨rfl, .inl rfl⟩
  · exact settles_gather w s line
  · exact settles_launch w s l
  · exact ⟨hsame.prompts, .inl hsame.reported⟩

end

/-! ## One line after another -/

/-- The lines are answered one after another, and lead from one state to another. -/
inductive Answers (w : Surroundings) : State → List Input → State → Prop where
  | nothing (s : State) : Answers w s [] s
  | line {s s' s'' : State} {line : String} {rest : List Input} :
      enter w s.prompt line = (.continue, s') → Answers w s' rest s'' →
      Answers w s (.line line :: rest) s''

section

variable {w : Surroundings} {s s' : State}

end

/-! ## The whole dialogue -/

/-- The dialogue gets to its first prompt: the current directory is there, and the execution before that
prompt succeeds. -/
def Begins (w : Surroundings) : Prop := w.files.adrift = false ∧ w.failure 0 = none

def Reaches (w : Surroundings) (before : List Input) (s : State) : Prop :=
  ∃ e first, opening w = .ok e ∧ execute w e .initial = (none, first) ∧ Answers w first before s

theorem exists_opening (h : w.files.adrift = false) : ∃ e, opening w = .ok e := by
  obtain ⟨ts, hread, -⟩ := readsWhole_nothing
  obtain ⟨code, hcode⟩ := (compile_written h .file hread).1 rfl
  exact ⟨⟨"<opn-preamble>", code⟩, by rw [opening, hcode]; rfl⟩

theorem run_of_begins (h : Begins w) :
    ∃ first, Reaches w [] first ∧ ∀ inputs, run w inputs = converse w first inputs := by
  obtain ⟨e, he⟩ := exists_opening h.1
  have hexecute : execute w e .initial = (none, (execute w e .initial).2) := by
    rw [← h.2]
    rfl
  refine ⟨_, ⟨e, _, he, hexecute, .nothing _⟩, fun inputs => ?_⟩
  rw [run, he]
  dsimp only
  rw [hexecute]

def desk : Surroundings :=
  ⟨⟨[], ["work"], ["home"], false⟩, "python", [], fun _ => none, fun _ => none⟩

theorem Reaches.first {w : Surroundings} {s : State} (h : Reaches w [] s) :
    s.gathered = [] := by
  obtain ⟨e, first, -, hexecute, hnothing⟩ := h
  cases hnothing
  obtain rfl : (execute w e .initial).2 = s := by rw [hexecute]
  rfl

end ScriptWorkbench.Repl
