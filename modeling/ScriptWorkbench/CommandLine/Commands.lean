/-
The commands of the workbench.
-/
import ScriptWorkbench.CommandLine.Arguments

namespace ScriptWorkbench.CommandLine

def helpFlag : Flag := ⟨["-h", "--help"], "help", false, false, true⟩

def valueFlag (short long : String) (required : Bool) : Flag :=
  ⟨["-" ++ short, "--" ++ long], long, true, required, false⟩

def noRunFlag : Flag := ⟨["--no-run"], "no-run", false, false, false⟩

def operand (name : String) : Operand := ⟨name, .one, []⟩

def simple (program : String) (flags : List Flag) (operands : List Operand) : Spec :=
  ⟨program, helpFlag :: flags, operands, []⟩

def group (program field : String) (commands : List (String × Spec)) : Spec :=
  ⟨program, [helpFlag], [⟨field, .command, []⟩], commands⟩

def configSpec : Spec :=
  group "opn config" "config_action"
    [("init", simple "opn config init" [] []),
     ("show", simple "opn config show" [] []),
     ("add-source", simple "opn config add-source" [] [operand "path"]),
     ("add-package", simple "opn config add-package" [] [operand "path"])]

def mainSpec : Spec :=
  group "opn" "command"
    [("run", simple "opn run" [valueFlag "o" "output" false, noRunFlag]
       [⟨"source", .atMostOne, []⟩]),
     ("transpile", simple "opn transpile" [valueFlag "o" "output" false] [operand "source"]),
     ("editor", simple "opn editor" [] []),
     ("package", simple "opn package" []
       [⟨"action", .one, ["install", "publish"]⟩, operand "name"]),
     ("compile", simple "opn compile"
       [valueFlag "o" "output" true, valueFlag "n" "name" true, valueFlag "v" "version" false,
        valueFlag "d" "description" false, valueFlag "a" "author" false]
       [operand "project_path"]),
     ("build", simple "opn build" [valueFlag "n" "name" false, valueFlag "v" "version" false]
       [operand "source"]),
     ("config", configSpec),
     ("fix-paths", simple "opn fix-paths" [] [operand "project_path"])]

def commandNames : List String := mainSpec.commands.map (·.1)

def withRun : List String → List String
  | [] => []
  | w :: rest =>
    if Text.startsWith w "-" || commandNames.contains w then w :: rest else "run" :: w :: rest

def Values.text? (values : Values) (field : String) : Option String :=
  match values.lookup field with
  | some (.text s) => some s
  | _ => none

def Values.isGiven (values : Values) (field : String) : Bool :=
  values.lookup field == some .given

end ScriptWorkbench.CommandLine
