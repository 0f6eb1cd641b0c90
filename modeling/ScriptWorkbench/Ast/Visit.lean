/-
Visiting nodes by their sort.

A visitor has methods for some sorts of nodes. A strict visitor fails on a node of any other sort; a
lenient one leaves it as it is.
-/

set_option autoImplicit false

namespace ScriptWorkbench.Ast

/-- Whether a node without a method is refused. -/
inductive Strictness where
  | strict
  | lenient
deriving Repr, DecidableEq

/-- What a visit gives back. -/
inductive Visited (α : Type) where
  | seen (sort : String)
  | unchanged (node : α)

/-- There is no method for nodes of this sort. -/
structure NoMethod where
  sort : String
deriving Repr, DecidableEq

def NoMethod.message (e : NoMethod) : String :=
  s!"No visit_{e.sort} method"

def visit {α : Type} (strictness : Strictness) (methods : List String) (sort : String) (node : α) :
    Except NoMethod (Visited α) :=
  if methods.contains sort then .ok (.seen sort)
  else
    match strictness with
    | .strict => .error ⟨sort⟩
    | .lenient => .ok (.unchanged node)

def visitAll {α : Type} (strictness : Strictness) (methods : List String) :
    List (String × α) → Except NoMethod (List (Visited α))
  | [] => .ok []
  | (sort, node) :: rest => do
    let first ← visit strictness methods sort node
    let others ← visitAll strictness methods rest
    return first :: others

end ScriptWorkbench.Ast
