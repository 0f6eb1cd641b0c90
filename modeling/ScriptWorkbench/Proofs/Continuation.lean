/-
Scripts of several lines at the prompt.

Lines are gathered as long as the message about them says that the script ended too early, and the loop knows
that by two phrases. One of them never comes: the end of the input has the empty text, so the message about it
reads "Unexpected token ''". **What is gathered is what stands inside an open string literal, and nothing
else** (`takenAsOne_iff`).
-/
import ScriptWorkbench.Proofs.Dialogue

namespace ScriptWorkbench

open Ast Token Grammar List

/-! ## The phrases looked for -/

namespace Text

theorem occursIn_append (p s : String) : occursIn p (p ++ s) = true := by
  rw [occursIn, isSome_indexOf?_iff, String.toList_append]
  exact infix_append' [] p.toList s.toList

theorem indexOf?_of_not_mem {c : Char} {cs : List Char} (h : c ∉ cs) (p : List Char) :
    indexOf? (c :: p) cs = none := by
  rw [← Option.not_isSome_iff_eq_none, isSome_indexOf?_iff]
  exact fun hpart => h (hpart.subset mem_cons_self)

theorem indexOf?_of_not_mem_tail {c d : Char} {cs p : List Char} (h : c ∉ cs)
    (hfirst : dropPrefix? (c :: p) (d :: cs) = none) : indexOf? (c :: p) (d :: cs) = none := by
  rw [indexOf?, hfirst, indexOf?_of_not_mem h]
  rfl

end Text

namespace Parser

theorem not_mem_describe (p : Position) : 'U' ∉ p.describe.toList := by
  have hdigits (n : Nat) : 'U' ∉ (toString n).toList := fun h => by cases Target.digits_toString n _ h
  unfold Position.describe
  simp only [String.toList_append, mem_append, not_or]
  exact ⟨⟨⟨by decide, hdigits _⟩, by decide⟩, hdigits _⟩

theorem not_mem_want_describe {want : Want} (h : want ≠ .expression) (found : Token) :
    'U' ∉ (want.describe found).toList := by
  unfold Want.describe
  cases want with
  | expression => exact absurd rfl h
  | _ => dsimp only; decide +kernel

/-- **A script that ends too early** does not say so in the words that the dialogue looks for. -/
theorem needsMore_unexpected_end (want : Want) {eof : Token} (h : eof.value = "") :
    Repl.needsMore (Failure.unexpected want eof).message = false := by
  have hplace := not_mem_describe eof.position
  -- both phrases start with a capital U
  have hphrases : "Unexpected token 'EOF'".toList = 'U' :: "nexpected token 'EOF'".toList ∧
      "Unterminated".toList = 'U' :: "nterminated".toList := by decide +kernel
  unfold Repl.needsMore Text.occursIn Failure.message
  rw [String.toList_append, hphrases.1, hphrases.2]
  by_cases hwant : want = .expression
  · have hfront : (want.describe eof).toList = 'U' :: "nexpected token ''".toList := by
      unfold Want.describe
      rw [hwant, h]
      decide +kernel
    have hrest : 'U' ∉ "nexpected token ''".toList ++ eof.position.describe.toList := by
      rw [mem_append, not_or]
      exact ⟨by decide +kernel, hplace⟩
    rw [hfront, cons_append, Text.indexOf?_of_not_mem_tail hrest rfl, Text.indexOf?_of_not_mem_tail hrest rfl]
    rfl
  · have hnone : 'U' ∉ (want.describe eof).toList ++ eof.position.describe.toList := by
      rw [mem_append, not_or]
      exact ⟨not_mem_want_describe hwant eof, hplace⟩
    rw [Text.indexOf?_of_not_mem hnone, Text.indexOf?_of_not_mem hnone]
    rfl

theorem kind_ne_of_misplaced {n : Nat} {ts : List Token} {t : Token}
    (h : topLevel n ts = .error (.misplaced t)) : t.kind ≠ .endOfInput := by
  induction n generalizing ts with
  | zero => cases h
  | succ n ih =>
    obtain ⟨m, u, us, hm, -, -, ⟨i, rest, -, hrest⟩ | ⟨want, -, hfailure⟩⟩ := topLevel_eq_error h rfl
    · obtain rfl := Nat.succ.inj hm
      exact ih hrest
    · rw [itemFailure] at hfailure
      split at hfailure
      · split at hfailure
        · cases hfailure
        next hkind => exact hkind
      · cases hfailure

theorem eq_end_of_beginning {n : Nat} {us tail : List Token} {eof eof' t : Token} {e : Failure}
    {pieces : List Piece} (hnodup : (us ++ [eof]).Nodup) (h : topLevel n (us ++ [eof]) = .error e)
    (hfound : e.found? = some t) (hwhole : us ++ tail = Piece.join pieces ++ [eof'])
    (heof' : eof'.kind = .endOfInput) : t = eof := by
  obtain ⟨before, vs, behind, hsplit, -⟩ := exists_pieces_of_topLevel_error h hfound
  rcases eq_nil_or_concat behind with rfl | ⟨behind, last, rfl⟩
  · obtain ⟨-, hlast⟩ := append_inj' hsplit rfl
    exact (cons.inj hlast).1.symm
  · -- the named token is one of the program's, so it can be no wrong one
    exfalso
    have hus : us = Piece.join before ++ vs ++ t :: behind := by
      rw [concat_eq_append, ← cons_append, ← append_assoc] at hsplit
      exact (append_inj' hsplit rfl).1
    rw [hsplit] at hnodup h
    apply not_viable_of_topLevel_error hnodup h hfound
    refine ⟨behind ++ tail, pieces, eof', ?_, heof'⟩
    rw [← hwhole, hus]
    simp only [append_assoc, cons_append, nil_append]

end Parser

/-! ## Sources that wait for more -/

namespace Repl

def Waits (fs : Files) (source : String) : Prop :=
  ∃ e, compile fs .prompt source = .error e ∧ e.isScriptError = true ∧ needsMore e.message = true

theorem waits_of_unterminated {source : String} {place : Position}
    (h : scan source = .error (.unterminated place)) (fs : Files) : Waits fs source := by
  refine ⟨_, compile_of_error (readProgram_of_scan_error h) fs .prompt, rfl, ?_⟩
  have hphrase : CompileError.message (.scan (.unterminated place)) =
      "Unterminated" ++ (" string" ++ place.describe) := by
    rw [← String.append_assoc]
    rfl
  unfold needsMore
  rw [hphrase, Text.occursIn_append, Bool.or_true]

section

variable {fs : Files} {source rest : String} {p : Program}

theorem not_waits_of_scan (hfs : fs.adrift = false) (hwhole : ReadsWhole (source ++ "\n" ++ rest) p)
    {ts : List Token} (hsource : scan source = .ok ts) : ¬Waits fs source := by
  rintro ⟨e, hcompile, hscript, hmore⟩
  obtain ⟨us, place, rfl, hlines⟩ := scanFrom_append_line hsource
  cases hparse : Parser.parse (us ++ [⟨.endOfInput, "", place⟩]) with
  | ok q =>
    -- what is accepted is emitted, or fails by no fault of the script
    have hwritten := compile_written hfs .prompt (readProgram_of_parse hsource hparse)
    cases hdisplaced : q.displaced with
    | nil =>
      obtain ⟨code, hcode⟩ := hwritten.1 hdisplaced
      rw [hcode] at hcompile
      cases hcompile
    | cons s others =>
      rw [hwritten.2 s others hdisplaced] at hcompile
      cases hcompile
      cases hscript
  | error failure =>
    rw [compile_of_error (readProgram_of_parse_error hsource hparse)] at hcompile
    cases hcompile
    rw [Parser.isScriptError_parse, Option.isSome_iff_exists] at hscript
    obtain ⟨t, hfound⟩ := hscript
    -- the failure names the end of the input, and that is no misplaced token
    have hend : t = ⟨.endOfInput, "", place⟩ := by
      obtain ⟨pieces, eof, hscan, heof, -⟩ := hwhole.exists_pieces
      rw [scan_append_line, hlines] at hscan
      cases hrest : scanFrom place.nextLine rest.toList with
      | error _ => rw [hrest] at hscan; cases hscan
      | ok tail =>
        rw [hrest] at hscan
        exact Parser.eq_end_of_beginning (scan_nodup hsource) hparse hfound (Except.ok.inj hscan) heof
    subst hend
    cases failure with
    | unexpected want found =>
      cases hfound
      have hnot : needsMore (Parser.Failure.unexpected want ⟨.endOfInput, "", place⟩).message = false :=
        Parser.needsMore_unexpected_end want rfl
      rw [CompileError.message, hnot] at hmore
      cases hmore
    | misplaced found =>
      cases hfound
      exact Parser.kind_ne_of_misplaced hparse rfl
    | ranOff | badNumber why | exhausted => cases hfound

/-- **The beginning of a source that is accepted as a whole** waits exactly inside a string literal. -/
theorem waits_iff_unterminated (hfs : fs.adrift = false)
    (hwhole : ReadsWhole (source ++ "\n" ++ rest) p) :
    Waits fs source ↔ ∃ place, scan source = .error (.unterminated place) := by
  constructor
  · intro hwaits
    cases hsource : scan source with
    | ok ts => exact absurd hwaits (not_waits_of_scan hfs hwhole hsource)
    | error failure =>
      -- a failure that stays would be a failure of the whole
      have hgone : ¬failure.stays = true := by
        intro hstays
        obtain ⟨pieces, eof, hscan, -⟩ := hwhole.exists_pieces
        rw [scan_append_line, scanFrom_append_line_error hsource hstays] at hscan
        cases hscan
      obtain ⟨e, hcompile, hscript, -⟩ := hwaits
      rw [compile_of_error (readProgram_of_scan_error hsource)] at hcompile
      cases hcompile
      cases failure with
      | unterminated place => exact ⟨place, rfl⟩
      | ranOff => cases hscript
      | unexpected c place | badEscape c place => exact absurd rfl hgone
  · rintro ⟨place, hplace⟩
    exact waits_of_unterminated hplace fs

end

/-! ## One line more -/

section

variable {w : Surroundings} {s : State} {line : String}

theorem gather_of_waits (h : Waits w.files (s.sourceWith line)) :
    gather w s line = (.continue, { s with gathered := s.gathered ++ [line] }) := by
  obtain ⟨e, hcompile, hscript, hmore⟩ := h
  rw [gather_of_error hcompile, if_pos hscript, scriptError, if_pos hmore]

theorem gather_of_code {code : String} (hcalm : w.failure s.executions.length = none)
    (h : compile w.files .prompt (s.sourceWith line) = .ok code) :
    gather w s line = (.continue, { s with
      gathered := [], bindings := w.bindings,
      executions := s.executions ++ [⟨"<opn-repl>", code⟩] }) := by
  have hcode : ¬(Text.trim code == "") = true := by
    rw [beq_iff_eq]
    exact trim_ne_of_compile h
  rw [gather_of_ok h, runCode, if_neg hcode, execute]
  rw [hcalm]

theorem gather_of_not_waits {e : CompileError}
    (h : compile w.files .prompt (s.sourceWith line) = .error e) :
    (gather w s line).2.executions = s.executions ∧ (¬Waits w.files (s.sourceWith line) →
      (gather w s line).1 = .continue → (gather w s line).2.gathered = []) := by
  rw [gather_of_error h]
  by_cases hscript : e.isScriptError = true
  · rw [if_pos hscript, scriptError]
    by_cases hmore : needsMore e.message = true
    · rw [if_pos hmore]
      exact ⟨rfl, fun hnot _ => absurd ⟨e, h, hscript, hmore⟩ hnot⟩
    · rw [if_neg hmore]
      exact ⟨rfl, fun _ _ => rfl⟩
  · rw [if_neg hscript]
    refine ⟨rfl, fun _ hgoes => ?_⟩
    cases hgoes

theorem sameScript_of_launch {s' : State} {l : Launch} (h : launch w s l = (.continue, s'))
    (hgathered : s'.gathered ≠ []) : s.SameScript s' := by
  rw [launch] at h
  cases hfail : w.launchFailure s.launches.length with
  | none =>
    rw [hfail] at h
    cases h
    exact ⟨rfl, rfl, rfl, rfl⟩
  | some r =>
    -- a report would have cleared what is gathered
    rw [hfail] at h
    dsimp only at h
    rw [settle] at h
    cases hsort : r.sort <;> rw [hsort] at h <;> cases h <;> exact absurd rfl hgathered

theorem enter_of_gathered {s' : State} (hcalm : w.failure s.executions.length = none)
    (h : enter w s line = (.continue, s')) (hgathered : s'.gathered ≠ []) :
    (¬IsKept line ∧ ¬IsExit line ∧ s.SameScript s') ∨
      (IsKept line ∧ Waits w.files (s.sourceWith line) ∧
        s' = { s with gathered := s.gathered ++ [line] }) := by
  obtain ⟨-, henter⟩ | ⟨hkept, henter⟩ | ⟨hexit, hkept, ⟨l, -, henter⟩ | ⟨-, _, henter, hsame⟩⟩ :=
    enter_cases w s line <;> rw [h] at henter
  · cases henter
  · by_cases hwaits : Waits w.files (s.sourceWith line)
    · rw [gather_of_waits hwaits] at henter
      cases henter
      exact .inr ⟨hkept, hwaits, rfl⟩
    · exfalso
      cases hcompile : compile w.files .prompt (s.sourceWith line) with
      | ok code =>
        rw [gather_of_code hcalm hcompile] at henter
        cases henter
        exact hgathered rfl
      | error e =>
        have hnone := (gather_of_not_waits hcompile).2 hwaits
        rw [← henter] at hnone
        exact hgathered (hnone rfl)
  · exact .inl ⟨hkept, hexit, sameScript_of_launch henter.symm hgathered⟩
  · cases henter
    exact .inl ⟨hkept, hexit, hsame⟩

end

theorem executions_launch (w : Surroundings) (s : State) (l : Launch) :
    (launch w s l).2.executions = s.executions := by
  rw [launch]
  cases w.launchFailure s.launches.length with
  | none => rfl
  | some r =>
    dsimp only
    rw [settle]
    cases r.sort <;> rfl

/-! ## Line after line -/

theorem prompts_enter (w : Surroundings) (s : State) (line : String) :
    (enter w s.prompt line).2.prompts = s.prompts ++ [s.nextPrompt] :=
  (settles_enter w s.prompt line).1

theorem prompts_prefix_converse (w : Surroundings) (s : State) (inputs : List Input) :
    s.prompts ++ [s.nextPrompt] <+: (converse w s inputs).1.prompts := by
  induction inputs generalizing s with
  | nil => exact prefix_refl _
  | cons input inputs ih =>
    cases input with
    | interrupt => exact prefix_refl _
    | line line =>
      have hprompts := prompts_enter w s line
      rw [converse]
      cases henter : enter w s.prompt line with
      | mk next s' =>
        rw [henter] at hprompts
        rw [← hprompts]
        cases next with
        | «continue» => exact (prefix_append _ _).trans (ih s')
        | leave | breakDown cause => exact prefix_refl _

/-- From a state on, the continuation prompt comes behind each of the first lines, nothing is reported,
and the code is all that is executed. -/
structure OneExecution (s : State) (waiting : Nat) (code : String) (r : State × Option Breakdown) :
    Prop where
  calm : r.2 = none
  silent : r.1.reported = s.reported
  prompts : s.prompts ++ s.nextPrompt :: List.replicate waiting .continued <+: r.1.prompts
  executions : r.1.executions = s.executions ++ [⟨"<opn-repl>", code⟩]

/-- **Gathering:** the lines lead from some lines gathered to more. A line that is no part of a script is
passed over where something is gathered. -/
inductive Gathers (fs : Files) : List String → List String → List String → Prop where
  | nothing (gathered : List String) : Gathers fs gathered [] gathered
  | skip {gathered rest gathered' : List String} {line : String} : ¬IsKept line → ¬IsExit line →
      gathered ≠ [] → Gathers fs gathered rest gathered' → Gathers fs gathered (line :: rest) gathered'
  | wait {gathered rest gathered' : List String} {line : String} : IsKept line →
      Waits fs ("\n".intercalate (gathered ++ [line])) →
      Gathers fs (gathered ++ [line]) rest gathered' → Gathers fs gathered (line :: rest) gathered'

section

variable {w : Surroundings} {s : State}

theorem oneExecution_last_iff (hcalm : w.failure s.executions.length = none) {last code : String} :
    OneExecution s 0 code (converse w s [.line last]) ↔
      IsKept last ∧ compile w.files .prompt (s.sourceWith last) = .ok code := by
  have hrun : (converse w s [.line last]).1.executions = (enter w s.prompt last).2.executions := by
    rw [converse]
    cases henter : enter w s.prompt last with
    | mk next s' => cases next <;> rfl
  constructor
  · intro hone
    have hexecuted := hone.executions
    rw [hrun] at hexecuted
    -- something was executed, so the line was gathered and the source compiled
    have hmore : (enter w s.prompt last).2.executions ≠ s.executions := by
      rw [hexecuted]
      simp
    obtain ⟨-, henter⟩ | ⟨hkept, henter⟩ | ⟨-, -, ⟨l, -, henter⟩ | ⟨-, s', henter, hsame⟩⟩ :=
      enter_cases w s.prompt last
    · exact absurd (by rw [henter]; rfl) hmore
    · refine ⟨hkept, ?_⟩
      rw [henter] at hmore hexecuted
      cases hcompile : compile w.files .prompt (s.sourceWith last) with
      | error e => exact absurd (gather_of_not_waits (s := s.prompt) hcompile).1 hmore
      | ok code' =>
        rw [gather_of_code (s := s.prompt) hcalm hcompile] at hexecuted
        have hlast := append_cancel_left hexecuted
        cases hlast
        rfl
    · exact absurd (by rw [henter]; exact executions_launch w s.prompt l) hmore
    · exact absurd (by rw [henter]; exact hsame.executions) hmore
  · rintro ⟨hkept, hcompile⟩
    have henter := enter_of_kept hkept w s.prompt
    rw [gather_of_code (s := s.prompt) hcalm hcompile] at henter
    rw [henter] at hrun
    refine ⟨?_, ?_, prompts_prefix_converse w s _, hrun⟩ <;> rw [converse, henter] <;> rfl

theorem exists_step_of_oneExecution {line code : String} {rest : List Input} {n : Nat}
    (h : OneExecution s (n + 1) code (converse w s (.line line :: rest))) :
    ∃ s', enter w s.prompt line = (.continue, s') ∧ s'.gathered ≠ [] := by
  have hshown := prompts_enter w s line
  obtain ⟨hcalm, -, hprompts, -⟩ := h
  cases henter : enter w s.prompt line with
  | mk next s' =>
    rw [henter] at hshown
    rw [converse, henter] at hcalm hprompts
    cases next with
    | breakDown cause => cases hcalm
    | leave =>
      -- there would be no second prompt
      have hlength := hprompts.length_le
      grind
    | «continue» =>
      refine ⟨s', rfl, fun hnone => ?_⟩
      -- the second prompt would be a fresh one
      have hsecond := prompts_prefix_converse w s' rest
      have hfresh : s'.nextPrompt = .fresh := by
        unfold State.nextPrompt
        rw [hnone]
        rfl
      rw [hshown, hfresh, append_assoc] at hsecond
      obtain ⟨later, hlater⟩ := hsecond
      obtain ⟨later', hlater'⟩ := hprompts
      rw [← hlater, append_assoc, append_assoc] at hlater'
      have hclash := append_cancel_left hlater'
      cases hclash

theorem oneExecution_step_iff {line code : String} {rest : List Input} {n : Nat} {s' : State}
    (henter : enter w s.prompt line = (.continue, s')) (hgathered : s'.gathered ≠ [])
    (hreported : s'.reported = s.reported) (hexecutions : s'.executions = s.executions) :
    OneExecution s (n + 1) code (converse w s (.line line :: rest)) ↔
      OneExecution s' n code (converse w s' rest) := by
  have hshown : s'.prompts = s.prompts ++ [s.nextPrompt] := by rw [← prompts_enter w s line, henter]
  have hwaiting : s'.nextPrompt = .continued := by
    unfold State.nextPrompt
    rw [if_neg (by rwa [List.isEmpty_iff])]
  have hprompts : s'.prompts ++ s'.nextPrompt :: replicate n .continued =
      s.prompts ++ s.nextPrompt :: replicate (n + 1) .continued := by
    rw [hshown, hwaiting, append_assoc, singleton_append, replicate_succ]
  rw [converse, henter]
  constructor
  · rintro ⟨hcalm, hsilent, hbegin, hexecuted⟩
    exact ⟨hcalm, hsilent.trans hreported.symm, hprompts ▸ hbegin, hexecutions ▸ hexecuted⟩
  · rintro ⟨hcalm, hsilent, hbegin, hexecuted⟩
    exact ⟨hcalm, hsilent.trans hreported, hprompts ▸ hbegin, hexecutions ▸ hexecuted⟩

/-- **Lines lead to one execution** exactly if all of them but the last are gathered, and the last
completes a source. -/
theorem oneExecution_iff_gathers (hcalm : w.failure s.executions.length = none) (init : List String)
    (last code : String) (hstarts : ∀ line ∈ init, IsKept line ∨ ∀ n, w.launchFailure n = none) :
    OneExecution s init.length code (converse w s ((init ++ [last]).map .line)) ↔
      ∃ gathered, Gathers w.files s.gathered init gathered ∧ IsKept last ∧
        compile w.files .prompt ("\n".intercalate (gathered ++ [last])) = .ok code := by
  induction init generalizing s with
  | nil =>
    rw [nil_append, map_singleton, length_nil, oneExecution_last_iff hcalm]
    constructor
    · rintro ⟨hkept, hcompile⟩
      exact ⟨s.gathered, .nothing _, hkept, hcompile⟩
    · rintro ⟨gathered, hnothing, hkept, hcompile⟩
      cases hnothing
      exact ⟨hkept, hcompile⟩
  | cons line init ih =>
    obtain ⟨hfirst, hrest⟩ := forall_mem_cons.1 hstarts
    constructor
    · intro hone
      obtain ⟨s', henter, hgathered⟩ := exists_step_of_oneExecution hone
      obtain ⟨hnot, hstay, hsame⟩ | ⟨hkept, hwaits, rfl⟩ :=
        enter_of_gathered (s := s.prompt) hcalm henter hgathered
      · have hcalm' : w.failure s'.executions.length = none := by rw [hsame.executions]; exact hcalm
        have hlater := (oneExecution_step_iff henter hgathered hsame.reported hsame.executions).1 hone
        obtain ⟨gathered, hgathers, hend⟩ := (ih hcalm' hrest).1 hlater
        rw [hsame.gathered] at hgathered hgathers
        exact ⟨gathered, .skip hnot hstay hgathered hgathers, hend⟩
      · have hlater := (oneExecution_step_iff henter hgathered rfl rfl).1 hone
        obtain ⟨gathered, hgathers, hend⟩ :=
          (ih (s := { s.prompt with gathered := s.gathered ++ [line] }) hcalm hrest).1 hlater
        exact ⟨gathered, .wait hkept hwaits hgathers, hend⟩
    · rintro ⟨gathered, hgathers, hend⟩
      cases hgathers with
      | skip hnot hstay hsome hgathers =>
        obtain ⟨s', henter, hsame⟩ := enter_of_not_kept (s := s.prompt) hnot hstay
          (hfirst.resolve_left hnot _)
        have hcalm' : w.failure s'.executions.length = none := by rw [hsame.executions]; exact hcalm
        have hgathered : s'.gathered = s.gathered := hsame.gathered
        have hlater := (ih hcalm' hrest).2 ⟨gathered, hgathered.symm ▸ hgathers, hend⟩
        exact (oneExecution_step_iff henter (hgathered.symm ▸ hsome) hsame.reported
          hsame.executions).2 hlater
      | wait hkept hwaits hgathers =>
        have henter := enter_of_kept hkept w s.prompt
        rw [gather_of_waits (s := s.prompt) hwaits] at henter
        have hlater := (ih (s := { s.prompt with gathered := s.gathered ++ [line] }) hcalm hrest).2
          ⟨gathered, hgathers, hend⟩
        exact (oneExecution_step_iff henter (by simp) rfl rfl).2 hlater

end

/-! ## Scripts of several lines -/

/-- **The lines are taken as one source.** A dialogue in which they are entered does not break down and
reports nothing; it shows the continuation prompt behind each line but the last; and after the opening it
executes the code of all the lines together, and nothing else. -/
def TakenAsOne (w : Surroundings) (init : List String) (last : String) : Prop :=
  let r := run w ((init ++ [last]).map .line)
  ∃ before code, opening w = .ok before ∧
    compile w.files .prompt ("\n".intercalate (init ++ [last])) = .ok code ∧
    r.2 = none ∧ r.1.reported = "" ∧
    .fresh :: List.replicate init.length .continued <+: r.1.prompts ∧
    r.1.executions = [before, ⟨"<opn-repl>", code⟩]

section

variable {w : Surroundings} {init : List String} {last : String}

theorem takenAsOne_iff_gathers (hbegins : Begins w) (hcalm : w.failure 1 = none)
    (hstarts : ∀ line ∈ init, IsKept line ∨ ∀ n, w.launchFailure n = none) :
    TakenAsOne w init last ↔ ∃ gathered code, Gathers w.files [] init gathered ∧ IsKept last ∧
      compile w.files .prompt ("\n".intercalate (gathered ++ [last])) = .ok code ∧
      compile w.files .prompt ("\n".intercalate (init ++ [last])) = .ok code := by
  obtain ⟨first, ⟨before, _, hopening, hexecute, hnothing⟩, hrun⟩ := run_of_begins hbegins
  cases hnothing
  obtain rfl : (execute w before .initial).2 = first := by rw [hexecute]
  have hone (code : String) :=
    oneExecution_iff_gathers (w := w) (s := (execute w before .initial).2) hcalm init last code hstarts
  unfold TakenAsOne
  rw [hrun]
  constructor
  · rintro ⟨_, code, hopening', hcompile, hnone, hsilent, hprompts, hexecutions⟩
    rw [hopening] at hopening'
    cases hopening'
    obtain ⟨gathered, hgathers, hkept, hcode⟩ := (hone code).1 ⟨hnone, hsilent, hprompts, hexecutions⟩
    exact ⟨gathered, code, hgathers, hkept, hcode, hcompile⟩
  · rintro ⟨gathered, code, hgathers, hkept, hcode, hcompile⟩
    obtain ⟨hnone, hsilent, hprompts, hexecutions⟩ := (hone code).2 ⟨gathered, hgathers, hkept, hcode⟩
    exact ⟨before, code, hopening, hcompile, hnone, hsilent, hprompts, hexecutions⟩

theorem gathers_iff_of_kept {fs : Files} {gathered lines gathered' : List String}
    (hkept : ∀ line ∈ lines, IsKept line) :
    Gathers fs gathered lines gathered' ↔ gathered' = gathered ++ lines ∧
      ∀ k, 0 < k → k ≤ lines.length → Waits fs ("\n".intercalate (gathered ++ lines.take k)) := by
  induction lines generalizing gathered with
  | nil =>
    constructor
    · intro h
      cases h
      grind
    · rintro ⟨rfl, -⟩
      rw [append_nil]
      exact .nothing _
  | cons line lines ih =>
    obtain ⟨hfirst, hrest⟩ := forall_mem_cons.1 hkept
    have htake (k : Nat) :
        gathered ++ (line :: lines).take (k + 1) = gathered ++ [line] ++ lines.take k := by
      rw [take_succ_cons, append_assoc, singleton_append]
    constructor
    · intro h
      cases h with
      | skip hnot => exact absurd hfirst hnot
      | wait _ hwaits hgathers =>
        obtain ⟨rfl, hall⟩ := (ih hrest).1 hgathers
        refine ⟨by rw [append_assoc, singleton_append], fun k hpos hk => ?_⟩
        obtain _ | k := k
        · omega
        rw [htake]
        by_cases hzero : k = 0
        · rw [hzero, take_zero, append_nil]
          exact hwaits
        · exact hall k (by omega) (by grind)
    · rintro ⟨rfl, hall⟩
      have hwaits := hall 1 (by omega) (by grind)
      refine .wait hfirst hwaits ((ih hrest).2 ⟨?_, fun k hpos hk => ?_⟩)
      · rw [append_assoc, singleton_append]
      · rw [← htake]
        exact hall (k + 1) (by omega) (by grind)

/-- **Lines of a script are taken as one source exactly inside a string literal:** each beginning of them
stops in an open one. -/
theorem takenAsOne_iff_unterminated (hbegins : Begins w) (hcalm : w.failure 1 = none) {p : Program}
    (hwhole : ReadsWhole ("\n".intercalate (init ++ [last])) p)
    (hkept : ∀ line ∈ init ++ [last], IsKept line) :
    TakenAsOne w init last ↔ p.displaced = [] ∧ ∀ k, 0 < k → k ≤ init.length →
      ∃ place, scan ("\n".intercalate (init.take k)) = .error (.unterminated place) := by
  have hinit : ∀ line ∈ init, IsKept line := fun line hmem => hkept line (mem_append_left _ hmem)
  have hlast : IsKept last := hkept last (by simp)
  have hwaits (k : Nat) (hpos : 0 < k) (hk : k ≤ init.length) :
      Waits w.files ("\n".intercalate (init.take k)) ↔
        ∃ place, scan ("\n".intercalate (init.take k)) = .error (.unterminated place) := by
    -- the lines are a beginning of the whole
    have hsome : init.take k ≠ [] := by
      apply ne_nil_of_length_pos
      grind
    have hsplit : "\n".intercalate (init ++ [last]) =
        "\n".intercalate (init.take k) ++ "\n" ++ "\n".intercalate (init.drop k ++ [last]) := by
      rw [← String.intercalate_append_of_ne_nil hsome (by simp), ← append_assoc, take_append_drop]
    rw [hsplit] at hwhole
    exact waits_iff_unterminated hbegins.1 hwhole
  obtain ⟨ts, hread, -⟩ := hwhole
  have hwritten := compile_written hbegins.1 .prompt hread
  rw [takenAsOne_iff_gathers hbegins hcalm fun line hmem => .inl (hinit line hmem)]
  constructor
  · rintro ⟨gathered, code, hgathers, -, -, hcompile⟩
    refine ⟨?_, fun k hpos hk => (hwaits k hpos hk).1 ?_⟩
    · cases hdisplaced : p.displaced with
      | nil => rfl
      | cons s others =>
        rw [hwritten.2 s others hdisplaced] at hcompile
        cases hcompile
    · exact ((gathers_iff_of_kept hinit).1 hgathers).2 k hpos hk
  · rintro ⟨hnone, hopen⟩
    obtain ⟨code, hcode⟩ := hwritten.1 hnone
    have hgathers : Gathers w.files [] init init :=
      (gathers_iff_of_kept hinit).2 ⟨rfl, fun k hpos hk => (hwaits k hpos hk).2 (hopen k hpos hk)⟩
    exact ⟨init, code, hgathers, hlast, hcode, hcode⟩

/-- **Which scripts of several lines are taken as one.** The lines, joined by line ends, are a source
that is accepted with every token used. If every program that they ask for starts, they are taken as one
source if and only if those before the last are gathered, the last completes what is gathered, and that has
the code of all the lines: a line that is blank or a command is lost even within a string literal. If there
is no such line it comes to this: no statement is displaced, and every line end stands inside a string literal. -/
theorem takenAsOne_iff (hbegins : Begins w) (hcalm : w.failure 1 = none) {p : Program}
    (hwhole : ReadsWhole ("\n".intercalate (init ++ [last])) p) :
    ((∀ n, w.launchFailure n = none) →
        (TakenAsOne w init last ↔ ∃ gathered code, Gathers w.files [] init gathered ∧ IsKept last ∧
          compile w.files .prompt ("\n".intercalate (gathered ++ [last])) = .ok code ∧
          compile w.files .prompt ("\n".intercalate (init ++ [last])) = .ok code)) ∧
      ((∀ line ∈ init ++ [last], IsKept line) →
        (TakenAsOne w init last ↔ p.displaced = [] ∧ ∀ k, 0 < k → k ≤ init.length →
          ∃ place, scan ("\n".intercalate (init.take k)) = .error (.unterminated place))) :=
  ⟨fun hstarts => takenAsOne_iff_gathers hbegins hcalm fun _ _ => .inr hstarts,
    takenAsOne_iff_unterminated hbegins hcalm hwhole⟩

end

/-- A string literal of two lines is taken as one source. -/
theorem takenAsOne_two_line_text : TakenAsOne desk ["\"a"] "b\";" := by
  have hjoin : "\n".intercalate (["\"a"] ++ ["b\";"]) = "\"a\nb\";" := by decide +kernel
  have hscan : scan "\"a\nb\";" = .ok [⟨.text, "a\nb", ⟨1, 1⟩⟩, ⟨.semicolon, ";", ⟨1, 6⟩⟩,
      ⟨.endOfInput, "", ⟨1, 7⟩⟩] := eq_ok_of_toOption (by decide +kernel)
  have hwhole : ReadsWhole "\"a\nb\";" ⟨[], [.expr (.literal (.text "a\nb"))], []⟩ :=
    readsWhole_of_parse hscan rfl (by decide +kernel)
  rw [← hjoin] at hwhole
  have hopen : scan "\"a" = .error (.unterminated ⟨1, 1⟩) := by
    change scanFrom .start ['"', 'a'] = _
    rw [scanFrom_token rfl rfl, nextToken]
    · rfl
    · rintro _ ⟨⟩
  have hkept : ∀ line ∈ ["\"a"] ++ ["b\";"], IsKept line := by decide +kernel
  refine ((takenAsOne_iff ⟨rfl, rfl⟩ rfl hwhole).2 hkept).2 ⟨rfl, fun k hpos hk => ⟨⟨1, 1⟩, ?_⟩⟩
  obtain rfl : k = 1 := Nat.le_antisymm hk hpos
  exact hopen

/-- **A function of two lines is not taken as one source.** -/
theorem not_takenAsOne_function :
    ReadsWhole "func f() \x7b\n\x7d" ⟨[⟨"f", [], .block []⟩], [], []⟩ ∧
      (∀ p, ¬ReadsWhole "func f() \x7b" p) ∧
      ∀ w, Begins w → w.failure 1 = none → ¬TakenAsOne w ["func f() \x7b"] "\x7d" := by
  have hjoin : "\n".intercalate (["func f() \x7b"] ++ ["\x7d"]) = "func f() \x7b\n\x7d" := by decide +kernel
  have hscan : scan "func f() \x7b\n\x7d" = .ok [⟨.funcWord, "func", ⟨1, 1⟩⟩,
      ⟨.identifier, "f", ⟨1, 6⟩⟩, ⟨.leftParen, "(", ⟨1, 7⟩⟩, ⟨.rightParen, ")", ⟨1, 8⟩⟩,
      ⟨.leftBrace, "\x7b", ⟨1, 10⟩⟩, ⟨.rightBrace, "\x7d", ⟨2, 1⟩⟩, ⟨.endOfInput, "", ⟨2, 2⟩⟩] :=
    eq_ok_of_toOption (by decide +kernel)
  have hfirst : scan "func f() \x7b" = .ok [⟨.funcWord, "func", ⟨1, 1⟩⟩, ⟨.identifier, "f", ⟨1, 6⟩⟩,
      ⟨.leftParen, "(", ⟨1, 7⟩⟩, ⟨.rightParen, ")", ⟨1, 8⟩⟩, ⟨.leftBrace, "\x7b", ⟨1, 10⟩⟩,
      ⟨.endOfInput, "", ⟨1, 11⟩⟩] := eq_ok_of_toOption (by decide +kernel)
  have hwhole : ReadsWhole "func f() \x7b\n\x7d" ⟨[⟨"f", [], .block []⟩], [], []⟩ :=
    readsWhole_of_parse hscan rfl (by decide +kernel)
  refine ⟨hwhole, ?_, ?_⟩
  · rintro p ⟨ts, hread, -⟩
    rw [readProgram_of_parse_error hfirst (e := .unexpected .expression ⟨.endOfInput, "", ⟨1, 11⟩⟩) rfl]
      at hread
    cases hread
  · intro w hbegins hcalm hone
    have hkept : ∀ line ∈ ["func f() \x7b"] ++ ["\x7d"], IsKept line := by decide +kernel
    rw [← hjoin] at hwhole
    obtain ⟨-, hopen⟩ := (takenAsOne_iff_unterminated hbegins hcalm hwhole hkept).1 hone
    obtain ⟨place, hplace⟩ := hopen 1 (by omega) (Nat.le_refl 1)
    have hagain : scan "func f() \x7b" = .error (.unterminated place) := hplace
    rw [hfirst] at hagain
    cases hagain

end Repl

end ScriptWorkbench
