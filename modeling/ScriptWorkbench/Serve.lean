/-
Answering a request over the network. A handler that fails is reported on the console and to the one who
asked.
-/
import ScriptWorkbench.Json.Basic

namespace ScriptWorkbench.Serve

/-- What is asked of the server. -/
inductive Event where
  | bind (host : String) (port : Json)
  | handle (path : Json)
  | sendError (code : Nat) (message : String)
deriving Repr

/-- What serving comes to. -/
structure Outcome where
  events : List Event
  printed : String
deriving Repr

def failed (message : String) : Outcome :=
  ⟨[.sendError 500 ("Server error in OPN handler: " ++ message)],
    "Error in OPN request handler: " ++ message ++ "\n"⟩

def answer (path : Json) (failure : Option String) : Outcome :=
  match failure with
  | none => ⟨[.handle path], ""⟩
  | some message =>
    let f := failed message
    ⟨.handle path :: f.events, f.printed⟩

def serve (port path : Json) (failure : Option String) : Outcome :=
  let a := answer path failure
  ⟨.bind "" port :: a.events, a.printed⟩

end ScriptWorkbench.Serve
