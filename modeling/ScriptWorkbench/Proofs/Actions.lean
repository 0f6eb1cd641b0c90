/-
Running actions. What a sequence of steps does follows from what each of them does: a step that succeeds hands
its result and its state to the next one, and the first that fails ends the run.
-/
import ScriptWorkbench.Files.Action

namespace ScriptWorkbench

namespace Action

/-! ## Running one step after another -/

section

variable {σ τ ε ε' α β : Type} {a : Action σ ε α} {s s' : σ}

theorem perform_bind_ok {x : α} (h : a.perform s = (.ok x, s')) (f : α → Action σ ε β) :
    (a >>= f).perform s = (f x).perform s' := by
  rw [perform] at h
  rw [perform, ExceptT.run_bind, StateT.run_bind, h]
  rfl

theorem perform_bind_error {e : ε} (h : a.perform s = (.error e, s')) (f : α → Action σ ε β) :
    (a >>= f).perform s = (.error e, s') := by
  rw [perform] at h
  rw [perform, ExceptT.run_bind, StateT.run_bind, h]
  rfl

theorem perform_tryCatch_error {e : ε} (h : a.perform s = (.error e, s')) (f : ε → Action σ ε α) :
    (tryCatch a f).perform s = (f e).perform s' := by
  rw [perform] at h
  rw [perform, ExceptT.run_tryCatch, StateT.run_bind, h]
  rfl

theorem perform_within (part : σ → τ) (put : τ → σ → σ) (g : ε' → ε) (b : Action τ ε' α) (s : σ) :
    (within part put g b).perform s =
      ((b.perform (part s)).1.mapError g, put (b.perform (part s)).2 s) := by
  change (ofExcept g (b.perform (part s)).1).perform (put (b.perform (part s)).2 s) = _
  cases (b.perform (part s)).1 <;> rfl

theorem perform_within_eq_ok {part : σ → τ} {put : τ → σ → σ} {g : ε' → ε} {b : Action τ ε' α} {x : α}
    (h : (within part put g b).perform s = (.ok x, s')) :
    ∃ t, b.perform (part s) = (.ok x, t) ∧ s' = put t s := by
  rw [perform_within] at h
  cases hrun : b.perform (part s) with
  | mk r t =>
    rw [hrun] at h
    cases r with
    | error e => cases h
    | ok y => cases h; exact ⟨t, rfl, rfl⟩

/-- The action leads from states with the property to such states, whether it fails or not. -/
def Leaves (P : σ → Prop) (a : Action σ ε α) : Prop := ∀ s, P s → P (a.perform s).2

theorem Leaves.after {P : σ → Prop} {r : Except ε α} (h : Leaves P a) (hs : P s)
    (hrun : a.perform s = (r, s')) : P s' := by
  have hafter := h s hs
  rwa [hrun] at hafter

theorem Leaves.bind {P : σ → Prop} {f : α → Action σ ε β} (ha : Leaves P a)
    (hf : ∀ x, Leaves P (f x)) : Leaves P (a >>= f) := by
  intro s hs
  have hafter := ha s hs
  cases h : a.perform s with
  | mk r s' =>
    rw [h] at hafter
    cases r with
    | ok x => rw [perform_bind_ok h]; exact hf x s' hafter
    | error e => rw [perform_bind_error h]; exact hafter

/-- **A run of two steps that succeeds:** the first succeeds, and the second goes on from there. -/
theorem perform_bind_eq_ok {f : α → Action σ ε β} {y : β} {s'' : σ}
    (h : (a >>= f).perform s = (.ok y, s'')) :
    ∃ x s', a.perform s = (.ok x, s') ∧ (f x).perform s' = (.ok y, s'') := by
  cases hfirst : a.perform s with
  | mk r s' =>
    cases r with
    | ok x => exact ⟨x, s', rfl, by rwa [perform_bind_ok hfirst] at h⟩
    | error e =>
      rw [perform_bind_error hfirst] at h
      cases h

theorem perform_ofExcept_eq_ok {g : ε' → ε} {r : Except ε' α} {x : α}
    (h : (ofExcept g r : Action σ ε α).perform s = (.ok x, s')) : r = .ok x ∧ s' = s := by
  cases r with
  | ok y =>
    cases h
    exact ⟨rfl, rfl⟩
  | error e => cases h

theorem perform_get (s : σ) : (get : Action σ ε σ).perform s = (.ok s, s) := rfl

end

/-! ## Files -/

theorem perform_making (p : Path) (fs : Files) :
    (Files.making p).perform fs = fs.ensureDirectories p := by
  have hsteps : (Files.making p).perform fs =
      (Action.ofExcept id (fs.ensureDirectories p).1).perform (fs.ensureDirectories p).2 := rfl
  rw [hsteps]
  cases fs.ensureDirectories p with
  | mk r fs' => cases r <;> rfl

theorem perform_writing_ok {fs fs' : Files} {path text : String}
    (h : fs.writeText path text = .ok fs') : (Files.writing path text).perform fs = (.ok (), fs') := by
  rw [Files.writing, perform_bind_ok (perform_get fs), h]
  rfl

theorem perform_writing_error {fs : Files} {path text : String} {e : FileError}
    (h : fs.writeText path text = .error e) :
    (Files.writing path text).perform fs = (.error e, fs) := by
  rw [Files.writing, perform_bind_ok (perform_get fs), h]
  rfl

end Action

end ScriptWorkbench
