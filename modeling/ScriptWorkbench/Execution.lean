/-
Handing compiled code over for execution, which happens outside. What went wrong is sorted by what is done
about it.
-/

set_option autoImplicit false

namespace ScriptWorkbench

/-- Code that is handed over to be run, under the name that failures quote. -/
structure Execution where
  name : String
  code : String
deriving Repr, DecidableEq

/-- The sorts of failures of running code that are told apart. -/
inductive RaisedSort where
  | script
  | badCode
  | brokenOff
  | missingFile
  | other
deriving Repr, DecidableEq

/-- A failure of code that was run. -/
structure Raised where
  sort : RaisedSort
  name : String
  message : String
deriving Repr, DecidableEq

end ScriptWorkbench
