/-
Words that name a script, handed to the program and found on its command line.

The words on the command line go through `withRun` first, words that are handed over do not. Whatever comes of
that, a caller can tell the two apart. Main statement: `words_agree_iff_no_script`.
-/
import ScriptWorkbench.CommandLine.Run

namespace ScriptWorkbench.CommandLine

open Text (startsWith dropPrefix?)

variable {s : Spec} {inner : Spec → List String → Except Refusal (Values × List String)}
  {w : String} {words : List String}

/-! ## Words as flags -/

theorem toList_of_startsWith_dash {word : String} (h : startsWith word "-" = true) :
    ∃ cs, word.toList = '-' :: cs := by
  unfold startsWith at h
  rcases hw : word.toList with _ | ⟨c, cs⟩
  · simp [hw, dropPrefix?] at h
  · by_cases hc : '-' = c
    · exact ⟨cs, by rw [hc]⟩
    · simp [hw, dropPrefix?, hc] at h

theorem length_shortened_le_one {word : String} (hs : s.flags = [helpFlag])
    (hd : startsWith word "-" = true) (hl : word.length ≠ 1) : (s.shortened word).length ≤ 1 := by
  obtain ⟨cs, hw⟩ := toList_of_startsWith_dash hd
  have hn : s.named = [("-h", helpFlag), ("--help", helpFlag)] := by simp [Spec.named, hs, helpFlag]
  have hcs : cs ≠ [] := by
    rintro rfl
    exact hl (by rw [← String.length_toList, hw]; rfl)
  obtain ⟨c, ds, rfl⟩ := List.exists_cons_of_ne_nil hcs
  unfold Spec.shortened
  by_cases hc : '-' = c
  · have h2 : startsWith word "--" = true := by simp [startsWith, hw, dropPrefix?, ← hc]
    have hstart : ∃ es, (splitEquals word).1.toList = '-' :: '-' :: es := by
      unfold splitEquals
      dsimp only
      split
      · exact ⟨ds, by rw [hw, ← hc]⟩
      · exact ⟨ds.takeWhile (· != '='), by simp [hw, ← hc]⟩
    obtain ⟨es, hes⟩ := hstart
    have hshort : startsWith "-h" (splitEquals word).1 = false := by simp [startsWith, hes, dropPrefix?]
    rw [if_pos h2, hn]
    simp only [List.filterMap_cons, hshort, Bool.false_eq_true, if_false]
    split <;> simp
  · have h2 : ¬startsWith word "--" = true := by simp [startsWith, hw, dropPrefix?, hc]
    have hlong : startsWith "--help" word = false := by simp [startsWith, hw, dropPrefix?, Ne.symm hc]
    have hne : ("--help" == String.ofList (word.toList.take 2)) = false := by
      rw [beq_eq_false_iff_ne, hw, ne_eq, ← String.toList_inj]
      simp
    rw [if_neg h2, hn]
    simp only [List.filterMap_cons, hlong, hne]
    split <;> simp

theorem readFlag_eq_ok (hs : s.flags = [helpFlag]) (word : String) :
    ∃ r, s.readFlag word = .ok r := by
  unfold Spec.readFlag
  by_cases hd : startsWith word "-" = true
  · rw [if_neg (by simp [hd])]
    split
    · exact ⟨_, rfl⟩
    · split
      · exact ⟨_, rfl⟩
      · rename_i hl
        have h1 := length_shortened_le_one hs hd hl
        dsimp only
        split
        · exact ⟨_, rfl⟩
        · split
          · exact ⟨_, rfl⟩
          · split <;> exact ⟨_, rfl⟩
          · rename_i hone hnil
            rcases hm : s.shortened word with _ | ⟨r, _ | ⟨t, us⟩⟩
            · exact absurd hm hnil
            · exact absurd hm (hone r)
            · simp [hm] at h1
  · exact ⟨none, by rw [if_pos (by simpa using hd)]⟩

theorem mark_eq_ok (hs : s.flags = [helpFlag]) (words : List String) :
    ∃ marked, s.mark words = .ok marked ∧ marked.map (·.1) = words := by
  induction words with
  | nil => exact ⟨[], rfl, rfl⟩
  | cons w rest ih =>
    unfold Spec.mark
    split
    · exact ⟨_, rfl, by simp [Function.comp_def]⟩
    · obtain ⟨r, hr⟩ := readFlag_eq_ok hs w
      obtain ⟨others, ho, hmap⟩ := ih
      exact ⟨(w, (r.map Mark.flag).getD .plain) :: others, by rw [hr, ho]; rfl, by rw [List.map_cons, hmap]⟩

theorem mark_cons_plain (hs : s.flags = [helpFlag]) (hw : startsWith w "-" = false)
    (rest : List String) :
    ∃ marked, s.mark (w :: rest) = .ok ((w, .plain) :: marked) ∧ marked.map (·.1) = rest := by
  obtain ⟨marked, hm, hmap⟩ := mark_eq_ok hs rest
  have hne : ¬(w == "--") = true := by
    intro h
    rw [beq_iff_eq.1 h] at hw
    exact absurd hw (by decide)
  have hr : s.readFlag w = .ok none := by simp [Spec.readFlag, hw]
  refine ⟨marked, ?_, hmap⟩
  rw [Spec.mark, if_neg hne, hr, hm]
  rfl

/-! ## Commands in commands -/

theorem takeOperands_command {field : String} (w : String) (marked : List Word) (p : Progress) :
    s.takeOperands inner ((w, .plain) :: marked) p [⟨field, .command, []⟩] =
      (s.enter ⟨field, .command, []⟩ inner (w :: marked.map (·.1)) p).map
        fun q => ([], { q with operands := [] }) := by
  have hcount : Arity.count? ((w, .plain) :: marked) .command = some (marked.length + 1) := by
    simp [Arity.count?, Arity.count?.afterDashes, Arity.count?.dashes, Nat.add_comm]
  unfold Spec.takeOperands
  simp only [hcount, List.take_succ_cons, List.take_length, List.drop_succ_cons, List.drop_length]
  rcases s.enter ⟨field, .command, []⟩ inner (w :: marked.map (·.1)) p with r | q <;> rfl

theorem readWords_command (field : String) (budget : Nat) (w : String) (marked : List Word)
    {p : Progress} (hp : p.operands = [⟨field, .command, []⟩]) :
    s.readWords inner (budget + 2) ((w, .plain) :: marked) p =
      (s.enter ⟨field, .command, []⟩ inner (w :: marked.map (·.1)) p).map
        fun q => { q with operands := [] } := by
  unfold Spec.readWords
  rw [hp, takeOperands_command]
  -- the second turn, if there is one, finds no words
  generalize s.enter _ inner _ p = entered
  rcases entered with r | q
  · split <;> rfl
  · split
    · simp [Except.map, bind, Except.bind, pure, Except.pure]
    · simp [Except.map, bind, Except.bind, Spec.readWords, Spec.takeOperands, pure, Except.pure]

theorem absent_group {program field : String} {commands : List (String × Spec)} (p : Progress) :
    (group program field commands).absent p = [] := by
  simp [Spec.absent, group, helpFlag]

theorem readKnown_group (program field : String) (commands : List (String × Spec)) (depth : Nat)
    (hw : startsWith w "-" = false) (rest : List String) :
    (group program field commands).readKnown (depth + 1) (w :: rest) =
      match commands.lookup w with
      | none => .error (.usage program (.invalidChoice field w (commands.map (·.1))))
      | some command => (command.readKnown depth rest).map fun r => (r.1 ++ [(field, .text w)], r.2) := by
  obtain ⟨marked, hm, rfl⟩ := mark_cons_plain (s := group program field commands) rfl hw rest
  have hturns : 2 * ((w, Mark.plain) :: marked).length + 1 = 2 * marked.length + 1 + 2 := by
    grind
  have hcommands : (group program field commands).commands = commands := rfl
  rw [Spec.readKnown, hm]
  dsimp only
  -- all words are taken by the one operand
  rw [hturns, readWords_command field _ _ _ rfl]
  simp only [Spec.enter, hcommands]
  rcases hfound : commands.lookup w with _ | command
  · rfl
  · dsimp only
    generalize command.readKnown depth _ = known
    rcases known with r | ⟨values, below⟩
    · rfl
    · simp [Except.map, bind, Except.bind, pure, Except.pure, absent_group]

/-! ## Commands without commands -/

def RefusesAs (program : String) {α : Type} (P : α → Prop) : Except Refusal α → Prop
  | .ok x => P x
  | .error r => ∀ other fault, r = .usage other fault → other = program

section RefusesAs

variable {s : Spec} {program : String}

theorem RefusesAs.bind {α β : Type} {P : α → Prop} {Q : β → Prop} {x : Except Refusal α}
    {f : α → Except Refusal β} (hx : RefusesAs program P x)
    (hf : ∀ a, P a → RefusesAs program Q (f a)) : RefusesAs program Q (x >>= f) := by
  rcases x with r | a
  · exact hx
  · exact hf a hx

theorem RefusesAs.usage {α : Type} {P : α → Prop} (fault : Fault) :
    RefusesAs program P (.error (.usage program fault)) := by
  intro other fault' h
  rw [Refusal.usage.injEq] at h
  exact h.1.symm

theorem refusesAs_noteAll (p : Progress) (flags : List (Flag × Option String)) :
    RefusesAs program (fun q => q.operands = p.operands) (p.noteAll flags) := by
  induction flags generalizing p with
  | nil => exact rfl
  | cons f rest ih =>
    unfold Progress.noteAll Progress.note
    split
    split
    · intro other fault h
      exact absurd h (by simp)
    · exact ih _

theorem refusesAs_takeOperands {operands : List Operand} (ho : ∀ o ∈ operands, o.arity ≠ .command)
    (words : List Word) (p : Progress) :
    RefusesAs s.program (fun r => ∀ o ∈ r.2.operands, o.arity ≠ .command)
      (s.takeOperands inner words p operands) := by
  induction operands generalizing words p with
  | nil => simp [Spec.takeOperands, RefusesAs]
  | cons o rest ih =>
    have hrest : ∀ o ∈ rest, o.arity ≠ .command := fun o' ho' => ho o' (List.mem_cons_of_mem _ ho')
    unfold Spec.takeOperands
    split
    · -- too few words are left for the operand: it stays
      exact ho
    · rw [if_neg (ho o List.mem_cons_self)]
      split
      · exact .usage _
      · exact ih hrest _ _

theorem refusesAs_readWords (budget : Nat) (words : List Word) (p : Progress)
    (ho : ∀ o ∈ p.operands, o.arity ≠ .command) :
    RefusesAs s.program (fun _ => True) (s.readWords inner budget words p) := by
  -- one turn after another, of which each keeps the operands free of commands
  induction budget generalizing words p with
  | zero => trivial
  | succ budget ih =>
    unfold Spec.readWords
    split
    · exact (refusesAs_takeOperands ho words p).bind fun _ _ => trivial
    · split
      · split
        · exact ih _ _ ho
        · split
          · exact .usage _
          · exact (refusesAs_noteAll p _).bind fun q hq => ih _ _ (hq ▸ ho)
      · refine (refusesAs_takeOperands ho words p).bind fun r hr => ?_
        dsimp only
        split <;> exact ih _ _ hr

theorem refusesAs_readKnown (depth : Nat) (ho : ∀ o ∈ s.operands, o.arity ≠ .command)
    (words : List String) : RefusesAs s.program (fun _ => True) (s.readKnown depth words) := by
  cases depth with
  | zero => trivial
  | succ depth =>
    unfold Spec.readKnown
    split
    · exact .usage _
    · refine (refusesAs_readWords _ _ _ ho).bind fun p _ => ?_
      split
      · trivial
      · exact .usage _

end RefusesAs

/-! ## Words that name a script -/

def NamesScript : List String → Prop
  | [] => False
  | w :: _ => startsWith w "-" = false ∧ w ∉ commandNames

/-- What a caller sees of how a command line ended: the code, and the line that says what is wrong. -/
def Outcome.seen : Outcome → Nat × String
  | .code n => (n, "")
  | .refused .help => (0, "")
  | .refused (.usage program fault) => (2, usageLine program fault)
  | .crashed crash => (1, crash.message)

theorem runWords_script (s : Surroundings) (rest : List String) (h : NamesScript (w :: rest))
    (world : World) :
    runWords s (w :: rest) world =
      (.refused (.usage "opn" (.invalidChoice "command" w commandNames)), world) := by
  have hunknown : mainSpec.commands.lookup w = none := by
    rw [List.lookup_eq_none_iff]
    intro c hc
    rw [bne_iff_ne]
    rintro rfl
    exact h.2 (List.mem_map_of_mem hc)
  have hknown := readKnown_group "opn" "command" mainSpec.commands 3 h.1 rest
  rw [hunknown] at hknown
  have hread : mainSpec.read (w :: rest) =
      .error (.usage "opn" (.invalidChoice "command" w commandNames)) := by
    unfold Spec.read
    rw [maxDepth]
    exact congrArg (· >>= _) hknown
  rw [runWords, hread]

theorem runLine_script (s : Surroundings) (h : NamesScript words) (world : World) :
    runLine s words world = runWords s ("run" :: words) world := by
  rcases words with _ | ⟨w, rest⟩
  · exact h.elim
  · have hc : commandNames.contains w = false := by simpa using h.2
    rw [runLine, withRun, h.1, hc]
    rfl

theorem usage_of_read_run {program : String} {fault : Fault}
    (h : mainSpec.read ("run" :: words) = .error (.usage program fault)) :
    program = "opn run" ∨ program = "opn" ∧ ∃ extra, fault = .unrecognized extra := by
  obtain ⟨run, hrun, hprogram, hoperands⟩ : ∃ run, mainSpec.commands.lookup "run" = some run ∧
      run.program = "opn run" ∧ ∀ o ∈ run.operands, o.arity ≠ .command := ⟨_, rfl, rfl, by decide⟩
  have hknown := readKnown_group "opn" "command" mainSpec.commands 3 (w := "run") (by decide) words
  rw [hrun] at hknown
  have hown := refusesAs_readKnown 3 hoperands words
  have hread : mainSpec.read ("run" :: words) = (((run.readKnown 3 words).map fun r =>
      (r.1 ++ [("command", Value.text "run")], r.2)) >>= fun r =>
        if r.2.isEmpty then pure r.1 else .error (.usage "opn" (.unrecognized r.2))) := by
    exact congrArg (· >>= _) hknown
  rw [hread] at h
  rcases hrest : run.readKnown 3 words with r | ⟨values, extra⟩
  · -- the command itself refuses its words
    rw [hrest] at h hown
    left
    rw [← hprogram]
    exact hown program fault (by simpa [Except.map, bind, Except.bind] using h)
  · -- the command leaves words over
    rw [hrest] at h
    right
    simp only [Except.map, bind, Except.bind] at h
    split at h
    · simp [pure, Except.pure] at h
    · rw [Except.error.injEq, Refusal.usage.injEq] at h
      exact ⟨h.1.symm, extra, h.2.symm⟩

theorem toList_usageLine (program : String) (fault : Fault) :
    (usageLine program fault).toList = program.toList ++ (": error: ".toList ++ fault.message.toList) := by
  simp [usageLine, toString]

theorem usageLine_ne_empty (program : String) (fault : Fault) : usageLine program fault ≠ "" := by
  intro h
  have hchars := congrArg String.toList h
  rw [toList_usageLine, String.toList_empty, List.append_eq_nil_iff, List.append_eq_nil_iff] at hchars
  exact absurd hchars.2.1 (by decide +kernel)

theorem usageLine_run_ne (fault fault' : Fault) :
    usageLine "opn run" fault ≠ usageLine "opn" fault' := by
  have hlong : "opn run".toList = "opn".toList ++ ' ' :: "run".toList := by decide +kernel
  have hcolon : ": error: ".toList = ':' :: " error: ".toList := by decide +kernel
  intro h
  have hchars := congrArg String.toList h
  rw [toList_usageLine, toList_usageLine, hlong, List.append_assoc, List.append_cancel_left_eq,
    hcolon] at hchars
  exact absurd (List.cons.inj hchars).1 (by decide)

theorem usageLine_unrecognized_ne (program : String) (extra : List String) (argument value : String)
    (choices : List String) : usageLine program (.unrecognized extra) ≠
      usageLine program (.invalidChoice argument value choices) := by
  obtain ⟨us, hu⟩ : ∃ us, (Fault.unrecognized extra).message.toList = 'u' :: us := by
    have hfirst : "unrecognized arguments: ".toList = 'u' :: "nrecognized arguments: ".toList := by
      decide +kernel
    unfold Fault.message
    rw [String.toList_append, hfirst]
    exact ⟨_, rfl⟩
  obtain ⟨cs, hc⟩ : ∃ cs, (Fault.invalidChoice argument value choices).message.toList = 'a' :: cs := by
    have hfirst : (toString "argument ").toList = 'a' :: "rgument ".toList := by decide +kernel
    unfold Fault.message
    iterate 6 rw [String.toList_append]
    rw [hfirst]
    exact ⟨_, rfl⟩
  intro h
  have hchars := congrArg String.toList h
  rw [toList_usageLine, toList_usageLine, List.append_cancel_left_eq, List.append_cancel_left_eq, hu,
    hc] at hchars
  exact absurd (List.cons.inj hchars).1 (by decide)

theorem Outcome.refused_of_seen {o : Outcome} {line : String} (h : o.seen = (2, line))
    (hline : line ≠ "") : ∃ program fault, o = .refused (.usage program fault) ∧
      usageLine program fault = line := by
  rcases o with n | (⟨program, fault⟩ | _) | crash
  · exact absurd (Prod.mk.inj h).2.symm hline
  · exact ⟨program, fault, rfl, (Prod.mk.inj h).2⟩
  · exact absurd (Prod.mk.inj h).1 (by decide)
  · exact absurd (Prod.mk.inj h).1 (by decide)

theorem read_of_runWords {s : Surroundings} {world : World} {r : Refusal}
    (h : (runWords s words world).1 = .refused r) : mainSpec.read words = .error r := by
  unfold runWords at h
  split at h
  · rename_i r' hread
    rw [hread, Outcome.refused.inj h]
  · split at h <;> simp at h

theorem seen_run_ne (s : Surroundings) (words : List String) (world : World) (w : String) :
    (runWords s ("run" :: words) world).1.seen ≠
      (2, usageLine "opn" (.invalidChoice "command" w commandNames)) := by
  intro h
  obtain ⟨program, fault, hrefused, hline⟩ := Outcome.refused_of_seen h (usageLine_ne_empty _ _)
  obtain rfl | ⟨rfl, extra, rfl⟩ := usage_of_read_run (read_of_runWords hrefused)
  · exact usageLine_run_ne _ _ hline
  · exact usageLine_unrecognized_ne _ _ _ _ _ hline

theorem ways_of_script (s : Surroundings) (h : NamesScript words) (world : World) :
    runLine s words world = runWords s ("run" :: words) world ∧
      runWords s words world =
        (.refused (.usage "opn" (.invalidChoice "command" (words.headD "") commandNames)), world) := by
  refine ⟨runLine_script s h world, ?_⟩
  rcases words with _ | ⟨w, rest⟩
  · exact h.elim
  · exact runWords_script s rest h world

theorem withRun_eq_self (h : ¬NamesScript words) : withRun words = words := by
  rcases words with _ | ⟨w, rest⟩
  · rfl
  · by_cases hw : startsWith w "-" = true
    · simp [withRun, hw]
    · have hc : w ∈ commandNames := Classical.not_not.1 fun hc => h ⟨by simpa using hw, hc⟩
      simp [withRun, hc]

/-! ## The two ways -/

/-- Words that are handed to the program do, to the code, the line that says what is wrong and the whole
world, what they do on its command line, if and only if they name no script. A script that is handed over
is refused as a command that does not exist, with nothing done, while on the command line it is run. -/
theorem words_agree_iff_no_script (s : Surroundings) (words : List String) (world : World) :
    ((runWords s words world).1.seen = (runLine s words world).1.seen ∧
      (runWords s words world).2 = (runLine s words world).2 ↔ ¬NamesScript words) ∧
    (NamesScript words → runLine s words world = runWords s ("run" :: words) world ∧
      runWords s words world =
        (.refused (.usage "opn" (.invalidChoice "command" (words.headD "") commandNames)), world)) := by
  refine ⟨⟨?_, ?_⟩, fun h => ways_of_script s h world⟩
  · rintro ⟨hseen, -⟩ h
    obtain ⟨hline, hwords⟩ := ways_of_script s h world
    rw [hline, hwords] at hseen
    exact seen_run_ne s words world (words.headD "") hseen.symm
  · intro h
    rw [runLine, withRun_eq_self h]
    exact ⟨rfl, rfl⟩

def oneScript : Files :=
  .install ⟨[], ["work"], ["home"], false⟩ ["work", "a.prisma"] (.file (.text "main { py.print(1); }"))

/-- The script is refused when its name is handed over, and run when it stands on the command line. -/
theorem script_word_refused :
    (runWords ⟨"", "", fun _ => none, none⟩ ["a.prisma"] (.ofFiles oneScript)).1 =
        .refused (.usage "opn" (.invalidChoice "command" "a.prisma" commandNames)) ∧
      (runLine ⟨"", "", fun _ => none, none⟩ ["a.prisma"] (.ofFiles oneScript)).1 = .code 0 := by
  decide +kernel

end ScriptWorkbench.CommandLine
