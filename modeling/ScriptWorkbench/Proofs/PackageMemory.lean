/-
What a search for packages remembers.

Directories that are added later stand before all others, so memory and a new search can disagree
(`find_after_calls`).
-/
import ScriptWorkbench.Package.Search
import ScriptWorkbench.Proofs.Scanned

namespace ScriptWorkbench.Package.Search

open List

variable {d p : Path}

/-! ## Searching without memory -/

/-- **What a search without memory answers:** the first of the directories that has the package decides,
unless one before it cannot be looked at. -/
inductive Answers (fs : Files) (name : String) (directories : List Path) :
    Except FileError (Option Path) → Prop where
  | nowhere : (∀ d ∈ directories, holds fs d name = .ok false) → Answers fs name directories (.ok none)
  | first {before after : List Path} {d : Path} : directories = before ++ d :: after →
      (∀ e ∈ before, holds fs e name = .ok false) → holds fs d name = .ok true →
      Answers fs name directories (.ok (some (d.child name)))
  | failed {before after : List Path} {d : Path} {e : FileError} : directories = before ++ d :: after →
      (∀ e ∈ before, holds fs e name = .ok false) → holds fs d name = .error e →
      Answers fs name directories (.error e)

section

variable {fs : Files} {name : String}

theorem locate?_cons_true (h : holds fs d name = .ok true) (ds : List Path) :
    locate? fs name (d :: ds) = .ok (some (d.child name)) := by
  rw [locate?, h]
  rfl

theorem locate?_cons_false (h : holds fs d name = .ok false) (ds : List Path) :
    locate? fs name (d :: ds) = locate? fs name ds := by
  rw [locate?, h]
  rfl

theorem locate?_cons_error {e : FileError} (h : holds fs d name = .error e) (ds : List Path) :
    locate? fs name (d :: ds) = .error e := by
  rw [locate?, h]
  rfl

theorem locate?_append_of_false {before : List Path} (h : ∀ d ∈ before, holds fs d name = .ok false)
    (ds : List Path) : locate? fs name (before ++ ds) = locate? fs name ds := by
  induction before with
  | nil => rfl
  | cons d before ih =>
    obtain ⟨hd, hbefore⟩ := forall_mem_cons.1 h
    rw [cons_append, locate?_cons_false hd, ih hbefore]

theorem answers_locate? (directories : List Path) :
    Answers fs name directories (locate? fs name directories) := by
  induction directories with
  | nil => exact .nowhere fun d hd => absurd hd not_mem_nil
  | cons d ds ih =>
    match hd : holds fs d name with
    | .error e =>
      rw [locate?_cons_error hd]
      exact .failed (nil_append (d :: ds)).symm (fun e he => absurd he not_mem_nil) hd
    | .ok true =>
      rw [locate?_cons_true hd]
      exact .first (nil_append (d :: ds)).symm (fun e he => absurd he not_mem_nil) hd
    | .ok false =>
      rw [locate?_cons_false hd]
      have hcons {before : List Path} (h : ∀ e ∈ before, holds fs e name = .ok false) :
          ∀ e ∈ d :: before, holds fs e name = .ok false :=
        forall_mem_cons.2 ⟨hd, h⟩
      generalize locate? fs name ds = answer at ih
      cases ih with
      | nowhere hall => exact .nowhere (hcons hall)
      | first hds hbefore hfound => exact .first (congrArg (d :: ·) hds) (hcons hbefore) hfound
      | failed hds hbefore hfailed => exact .failed (congrArg (d :: ·) hds) (hcons hbefore) hfailed

theorem answers_iff {directories : List Path} {answer : Except FileError (Option Path)} :
    Answers fs name directories answer ↔ locate? fs name directories = answer := by
  constructor
  · intro h
    cases h with
    | nowhere hall =>
      have hnone := locate?_append_of_false hall []
      rwa [append_nil] at hnone
    | first hds hbefore hfound => rw [hds, locate?_append_of_false hbefore, locate?_cons_true hfound]
    | failed hds hbefore hfailed => rw [hds, locate?_append_of_false hbefore, locate?_cons_error hfailed]
  · rintro rfl
    exact answers_locate? directories

theorem locate?_append (added older : List Path) :
    (∀ d ∈ added, holds fs d name = .ok false) ∧
        locate? fs name (added ++ older) = locate? fs name older ∨
      ¬(∀ d ∈ added, holds fs d name = .ok false) ∧
        locate? fs name (added ++ older) = locate? fs name added := by
  have hanswer : Answers fs name added (locate? fs name added) := answers_locate? added
  generalize hlocate : locate? fs name added = answer at hanswer
  cases hanswer with
  | nowhere hall => exact .inl ⟨hall, locate?_append_of_false hall older⟩
  | @first before after d hds hbefore hfound =>
    refine .inr ⟨fun hall => ?_, ?_⟩
    · rw [hall d (by simp [hds])] at hfound
      cases hfound
    · rw [hds, append_assoc, locate?_append_of_false hbefore, cons_append, locate?_cons_true hfound]
  | @failed before after d e hds hbefore hfailed =>
    refine .inr ⟨fun hall => ?_, ?_⟩
    · rw [hall d (by simp [hds])] at hfailed
      cases hfailed
    · rw [hds, append_assoc, locate?_append_of_false hbefore, cons_append, locate?_cons_error hfailed]

theorem answers_append_iff {added older : List Path} {answer : Except FileError (Option Path)}
    (h : Answers fs name older answer) :
    Answers fs name (added ++ older) answer ↔
      (∀ d ∈ added, holds fs d name = .ok false) ∨ Answers fs name added answer := by
  rw [answers_iff] at h
  rw [answers_iff, answers_iff]
  obtain ⟨hall, heq⟩ | ⟨hsome, heq⟩ := @locate?_append fs name added older
  · rw [heq]
    exact ⟨fun _ => .inl hall, fun _ => h⟩
  · rw [heq]
    exact ⟨.inr, fun hor => hor.resolve_left hsome⟩

end

/-! ## Calls -/

/-- What a search can be asked to do. -/
inductive Call where
  | add (directory : Path)
  | find (name : String)
  | load (name : String)
  | metadata (name : String)
  | resolve (name : String)
deriving Repr, DecidableEq

def Call.wanted? : Call → Option String
  | .add _ => none
  | .find name | .load name | .metadata name | .resolve name => some name

def Call.reorder (directories : List Path) : Call → List Path
  | .add d => if directories.contains d then directories else d :: directories
  | _ => directories

def noting (fs : Files) (s : Search) (name : String) : Search :=
  match s.find fs name with
  | .ok (_, s) => s
  | .error _ => s

def after (fs : Files) (s : Search) : Call → Search
  | .add d => s.addDirectory d
  | .find name => s.noting fs name
  | .load name => (s.load fs name).2
  | .metadata name => (s.metadata fs name).2
  | .resolve name => (s.resolve fs name).2

def afterAll (fs : Files) (s : Search) (calls : List Call) : Search := calls.foldl (after fs) s

/-- The search directories as they stood when a call found the package for the first time; those after all
calls if none found it. -/
def settled (fs : Files) (name : String) (directories : List Path) : List Call → List Path
  | [] => directories
  | c :: calls =>
    if c.wanted? == some name && (locate? fs name directories).toOption.join.isSome then directories
    else settled fs name (c.reorder directories) calls

def answer (fs : Files) (s : Search) (name : String) : Except FileError (Option Path) :=
  (s.find fs name).map Prod.fst

/-! ## One call -/

section

variable {fs : Files} {s : Search} {name : String}

theorem findThen_snd {α : Type} (missing : α) (f : Path → Except FileError α) :
    (s.findThen fs name missing f).2 = s.noting fs name := by
  rw [findThen, noting]
  cases s.find fs name with
  | error e => rfl
  | ok r =>
    obtain ⟨found, t⟩ := r
    cases found <;> rfl

/-- **What a call does to a search:** it adds a directory, or it looks for the package that it wants. -/
theorem after_cases (fs : Files) (s : Search) (c : Call) :
    (∃ d, c = .add d ∧ after fs s c = s.addDirectory d) ∨
      ∃ name, c.wanted? = some name ∧ after fs s c = s.noting fs name := by
  cases c with
  | add d => exact .inl ⟨d, rfl, rfl⟩
  | find name => exact .inr ⟨name, rfl, rfl⟩
  | load name | metadata name | resolve name => exact .inr ⟨name, rfl, findThen_snd _ _⟩

theorem find_of_lookup (h : s.found.lookup name = some p) :
    s.find fs name = .ok (some p, s) := by
  rw [find, h]

theorem find_of_lookup_none (h : s.found.lookup name = none) :
    answer fs s name = locate? fs name s.directories ∧
      s.noting fs name = { s with found := s.found ++
        ((locate? fs name s.directories).toOption.join.map (name, ·)).toList } := by
  rw [answer, noting, find, h]
  have hsame : s = { s with found := s.found ++ [] } := by rw [append_nil]
  cases locate? fs name s.directories with
  | error e => exact ⟨rfl, hsame⟩
  | ok found =>
    cases found with
    | none => exact ⟨rfl, hsame⟩
    | some p => exact ⟨rfl, rfl⟩

theorem after_directories (fs : Files) (s : Search) (c : Call) :
    (after fs s c).directories = c.reorder s.directories := by
  have hnoting (name : String) : (s.noting fs name).directories = s.directories := by
    cases hlookup : s.found.lookup name with
    | none => rw [(find_of_lookup_none hlookup).2]
    | some p => rw [noting, find_of_lookup hlookup]
  obtain ⟨d, rfl, hafter⟩ | ⟨name, hname, hafter⟩ := after_cases fs s c
  · rw [hafter, addDirectory, Call.reorder]
    split <;> rfl
  · rw [hafter, hnoting]
    cases c with
    | add d => cases hname
    | find | load | metadata | resolve => rfl

theorem lookup_after (h : s.found.lookup name = some p) (c : Call) :
    (after fs s c).found.lookup name = some p := by
  obtain ⟨d, -, hafter⟩ | ⟨other, -, hafter⟩ := after_cases fs s c
  · rw [hafter, addDirectory]
    split <;> exact h
  · rw [hafter]
    cases hlookup : s.found.lookup other with
    | none =>
      rw [(find_of_lookup_none hlookup).2]
      rw [lookup_append, h]
      rfl
    | some q =>
      rw [noting, find_of_lookup hlookup]
      exact h

theorem lookup_after_of_none (h : s.found.lookup name = none) (c : Call) :
    (after fs s c).found.lookup name =
      if c.wanted? == some name then (locate? fs name s.directories).toOption.join else none := by
  obtain ⟨d, rfl, hafter⟩ | ⟨other, hother, hafter⟩ := after_cases fs s c
  · rw [hafter, addDirectory]
    split <;> exact h
  · rw [hafter, hother]
    by_cases heq : other = name
    · subst heq
      rw [(find_of_lookup_none h).2, if_pos BEq.rfl]
      rw [lookup_append, h]
      cases (locate? fs other s.directories).toOption.join with
      | none => rfl
      | some p => simp
    · rw [if_neg (by simpa using heq)]
      cases hlookup : s.found.lookup other with
      | none =>
        rw [(find_of_lookup_none hlookup).2]
        rw [lookup_append, h]
        cases (locate? fs other s.directories).toOption.join with
        | none => rfl
        | some p => simp [lookup_cons, beq_false_of_ne (Ne.symm heq)]
      | some q =>
        rw [noting, find_of_lookup hlookup]
        exact h

end

/-! ## Any number of calls -/

section

variable {fs : Files} {name : String}

theorem afterAll_directories (fs : Files) (s : Search) (calls : List Call) :
    (afterAll fs s calls).directories = calls.foldl Call.reorder s.directories := by
  induction calls generalizing s with
  | nil => rfl
  | cons c calls ih =>
    rw [afterAll, foldl_cons, ← afterAll, ih, after_directories]
    rfl

theorem answer_of_lookup {s : Search} (h : s.found.lookup name = some p) (calls : List Call) :
    answer fs (afterAll fs s calls) name = .ok (some p) := by
  induction calls generalizing s with
  | nil =>
    rw [afterAll, foldl_nil, answer, find_of_lookup h]
    rfl
  | cons c calls ih => exact ih (lookup_after h c)

/-- **The answer after any calls,** in a search that did not remember the package before them. -/
theorem answer_afterAll {s : Search} (h : s.found.lookup name = none) (calls : List Call) :
    answer fs (afterAll fs s calls) name = locate? fs name (settled fs name s.directories calls) := by
  induction calls generalizing s with
  | nil => exact (find_of_lookup_none h).1
  | cons c calls ih =>
    rw [afterAll, foldl_cons, ← afterAll, settled]
    have hnext := @lookup_after_of_none fs s name h c
    split
    next hfound =>
      -- the call finds the package, and from here on it is remembered
      rw [Bool.and_eq_true] at hfound
      rw [if_pos hfound.1] at hnext
      cases hlocate : locate? fs name s.directories with
      | error e => rw [hlocate] at hfound; cases hfound.2
      | ok found =>
        cases found with
        | none => rw [hlocate] at hfound; cases hfound.2
        | some p =>
          rw [hlocate] at hnext
          exact answer_of_lookup hnext calls
    next hmissing =>
      have hnone : (after fs s c).found.lookup name = none := by
        rw [hnext]
        split
        next hwanted => simpa [hwanted] using hmissing
        next => rfl
      rw [ih hnone, after_directories]

theorem suffix_reorder (directories : List Path) (calls : List Call) :
    directories <:+ calls.foldl Call.reorder directories := by
  induction calls generalizing directories with
  | nil => exact suffix_refl _
  | cons c calls ih =>
    have hstep : directories <:+ c.reorder directories := by
      cases c with
      | add d =>
        rw [Call.reorder]
        split
        · exact suffix_refl _
        · exact suffix_cons d directories
      | find | load | metadata | resolve => exact suffix_refl _
    exact hstep.trans (ih (c.reorder directories))

theorem settled_suffix (directories : List Path) (calls : List Call) :
    settled fs name directories calls <:+ calls.foldl Call.reorder directories := by
  induction calls generalizing directories with
  | nil => exact suffix_refl _
  | cons c calls ih =>
    rw [settled]
    split
    · exact suffix_reorder directories (c :: calls)
    · exact ih (c.reorder directories)

/-- **What is found after any calls.** Whatever a new search was asked to do, its answer for a package is
what a search without memory answers for the directories as they stood when the package was first found;
the present directories are these with the ones added since in front. So it is also the answer for the
present directories if and only if none of those added since has the package, or they have the same
answer. -/
theorem find_after_calls (fs : Files) (directories : List Path) (calls : List Call) (name : String) :
    let now := afterAll fs ⟨directories, []⟩ calls
    Answers fs name (settled fs name directories calls) (answer fs now name) ∧
      ∃ added, now.directories = added ++ settled fs name directories calls ∧
        now.directories = calls.foldl Call.reorder directories ∧
        (Answers fs name now.directories (answer fs now name) ↔
          (∀ d ∈ added, holds fs d name = .ok false) ∨ Answers fs name added (answer fs now name)) := by
  intro now
  have hanswer : answer fs now name = locate? fs name (settled fs name directories calls) :=
    answer_afterAll rfl calls
  have hsettled : Answers fs name (settled fs name directories calls) (answer fs now name) :=
    answers_iff.2 hanswer.symm
  have horder : now.directories = calls.foldl Call.reorder directories := afterAll_directories fs _ calls
  obtain ⟨added, hadded⟩ := @settled_suffix fs name directories calls
  have hnow : now.directories = added ++ settled fs name directories calls := horder.trans hadded.symm
  refine ⟨hsettled, added, hnow, horder, ?_⟩
  rw [hnow]
  exact answers_append_iff hsettled

/-- A package in two directories, of which the second is added after it was found in the first. -/
def twice : Files :=
  ⟨[(["w"], .directory), (["w", "a"], .directory), (["w", "a", "p"], .directory),
    (["w", "a", "p", "index.prisma"], .file (.text "")), (["w", "b"], .directory),
    (["w", "b", "p"], .directory), (["w", "b", "p", "index.prisma"], .file (.text ""))],
   ["w"], ["h"], false⟩

/-- The package is found where it was, although the directory in front has it. -/
theorem find_ignores_added_directory :
    ∃ directories, initial twice = .ok ⟨directories, []⟩ ∧
      let now := afterAll twice ⟨directories, []⟩ [.add ⟨"", ["a"]⟩, .find "p", .add ⟨"", ["b"]⟩]
      answer twice now "p" = .ok (some ⟨"", ["a", "p"]⟩) ∧
        Answers twice "p" now.directories (.ok (some ⟨"", ["b", "p"]⟩)) := by
  refine ⟨[(⟨"/", ["w"]⟩ : Path).child "opn.import", ((⟨"/", ["h"]⟩ : Path).child ".opn").child "packages"],
    rfl, eq_ok_of_toOption (by decide +kernel), answers_iff.2 (eq_ok_of_toOption (by decide +kernel))⟩

end

end ScriptWorkbench.Package.Search
