/-
Computations over a state that may fail.

A failure does not take back what was changed before it: a directory that has been made stays made
when the file that should go into it cannot be written.
-/
import ScriptWorkbench.Files.Basic

namespace ScriptWorkbench

/-- Steps that change a state and can fail. What they did to the state stays when a later one fails. -/
abbrev Action (σ ε α : Type) := ExceptT ε (StateM σ) α

namespace Action

def perform {σ ε α : Type} (a : Action σ ε α) (s : σ) : Except ε α × σ :=
  (ExceptT.run a).run s

def ofExcept {σ ε ε' α : Type} (f : ε' → ε) : Except ε' α → Action σ ε α
  | .ok a => pure a
  | .error e => throw (f e)

def within {σ τ ε ε' α : Type} (part : σ → τ) (put : τ → σ → σ) (f : ε' → ε) (a : Action τ ε' α) :
    Action σ ε α := do
  let s ← get
  let (r, t) := a.perform (part s)
  set (put t s)
  ofExcept f r

end Action

namespace Files

def reading (path : String) : Action Files FileError String := do
  Action.ofExcept id ((← get).readText path)

def writing (path text : String) : Action Files FileError Unit := do
  set (← Action.ofExcept id ((← get).writeText path text))

def making (p : Path) : Action Files FileError Unit := do
  let (r, fs) := (← get).ensureDirectories p
  set fs
  Action.ofExcept id r

end Files

end ScriptWorkbench
