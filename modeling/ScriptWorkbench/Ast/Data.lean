/-
Trees as data.

A node is an object with the name of its sort and its parts. Trees are read whatever they hold: a value where
a node of another sort belongs becomes a foreign part, which remembers why it does not fit. A name that is no
text becomes the text that shows its value, unless it stands where only a text will do: as a whole line, in a
list, or as the name of an import.
-/
import ScriptWorkbench.Ast.Basic
import ScriptWorkbench.Json.Access
import ScriptWorkbench.Number.Read

namespace ScriptWorkbench.Ast

/-! ## Nodes -/

def nodeParts : List (String × List String) :=
  [("Program", ["functions", "statements", "classes"]), ("Class", ["name", "superclass", "body"]),
   ("This", []), ("Parameter", ["name"]), ("Block", ["statements"]),
   ("Function", ["name", "parameters", "body"]), ("LetStatement", ["name", "value"]),
   ("SetStatement", ["name", "value"]), ("ImportStatement", ["module"]),
   ("ReturnStatement", ["value"]), ("ExpressionStatement", ["expression"]),
   ("IfStatement", ["condition", "consequence", "alternative"]),
   ("TryStatement", ["try_block", "error_variable", "catch_block"]),
   ("ForStatement", ["target", "iterable", "body"]), ("WhileStatement", ["condition", "body"]),
   ("Identifier", ["value"]), ("Attribute", ["value", "attribute"]), ("Literal", ["value"]),
   ("UnaryOperation", ["operator", "operand"]),
   ("BinaryOperation", ["left", "operator", "right"]), ("LambdaExpression", ["parameters", "body"]),
   ("CallExpression", ["callee", "arguments"]), ("RangeExpression", ["start", "end"]),
   ("ListExpression", ["elements"]), ("IndexExpression", ["target", "index"])]

def sortOf (v : Json) : String :=
  match v.field? "node" with
  | some (.str "Object") => "object"
  | some (.str sort) => sort
  | _ => v.sort

def part (v : Json) (name : String) : Json :=
  (v.field? name).getD .null

def partOrMisfit (v : Json) (name : String) : Except Misfit Json :=
  if ((nodeParts.lookup (sortOf v)).getD []).contains name then .ok (part v name)
  else .error (.noPart (sortOf v) name)

def elementsOf (v : Json) : Except Misfit (List Json) :=
  if (v.field? "node").isSome then .error (.noElements (sortOf v))
  else v.elements.mapError fun _ => .noElements v.sort

/-! ## Literals -/

def readLiteral (v : Json) : Except Number.ReadError Literal :=
  let text := (part v "value").display
  match part v "type" with
  | .str "int" => (Number.readInt text).map .int
  | .str "float" => (Number.readReal text).map .real
  | .str "bool" => .ok (.truth (text == "True"))
  | _ => .ok (.text text)

def literalOf (v : Json) : Literal :=
  match readLiteral v with
  | .ok l => l
  | .error _ => .text (part v "value").display

mutual

def checkLiterals : Json → Except Number.ReadError Unit
  | .arr items => checkItems items
  | .obj fields =>
    if sortOf (.obj fields) == "Literal" then (readLiteral (.obj fields)).map fun _ => ()
    else checkFields fields
  | _ => .ok ()

def checkItems : List Json → Except Number.ReadError Unit
  | [] => .ok ()
  | v :: vs => do
    checkLiterals v
    checkItems vs

def checkFields : Json.Fields → Except Number.ReadError Unit
  | [] => .ok ()
  | (_, v) :: rest => do
    checkLiterals v
    checkFields rest

end

/-! ## Outlines -/

def outline : (budget : Nat) → Json → String
  | 0, v => v.literal
  | n + 1, v =>
    match v with
    | .arr items => "[" ++ ", ".intercalate (items.map (outline n)) ++ "]"
    | .obj fields =>
      match nodeParts.lookup (sortOf v) with
      | none => (Json.obj fields).literal
      | some names =>
        let shown := names.map fun name =>
          name ++ "=" ++
            (if sortOf v == "Literal" then (literalOf v).quoted else outline n (part v name))
        sortOf v ++ "(" ++ ", ".intercalate shown ++ ")"
    | v => v.literal

def textOf : Json → String
  | .str s => s
  | v => outline (v.depth + 1) v

/-! ## Reading -/

def ofElements (v : Json) (make : List Json → Expr) : Expr :=
  match elementsOf v with
  | .ok items => make items
  | .error why => .foreign why

def namelessSort? (v : Json) : Option String :=
  if sortOf v == "Identifier" then
    match part v "value" with
    | .str _ => none
    | value => some (sortOf value)
  else none

def namelessItem? (place : Nat) : List Json → List Expr
  | [] => []
  | v :: rest =>
    match namelessSort? v with
    | some sort => [.foreign (.notText place sort)]
    | none => namelessItem? (place + 1) rest

def isKeyless (v : Json) : Bool :=
  match v with
  | .arr _ => true
  | .obj _ => sortOf v != "object"
  | _ => false

def keylessCallee? (callee : Json) : List Expr :=
  if sortOf callee == "Identifier" && isKeyless (part callee "value") then
    [.foreign (.notName (sortOf (part callee "value")))]
  else []

def exprOf : (budget : Nat) → Json → Expr
  | 0, _ => .foreign .notExpression
  | n + 1, v =>
    let e (name : String) := exprOf n (part v name)
    let text (name : String) := textOf (part v name)
    match sortOf v with
    | "Literal" => .literal (literalOf v)
    | "Identifier" => .name (text "value")
    | "This" => .this
    | "Attribute" => .attribute (e "value") (text "attribute")
    | "UnaryOperation" => .unary (if text "operator" == "-" then .negate else .not) (e "operand")
    | "BinaryOperation" => .binary (e "left") (.ofSymbol (text "operator")) (e "right")
    | "RangeExpression" => .range (e "start") (e "end")
    | "ListExpression" => ofElements (part v "elements") fun l =>
      .list (l.map (exprOf n) ++ namelessItem? 0 l)
    | "IndexExpression" => .index (e "target") (e "index")
    | "CallExpression" =>
      ofElements (part v "arguments") fun l =>
        .call (e "callee") (l.map (exprOf n) ++ namelessItem? 0 l ++ keylessCallee? (part v "callee"))
    | _ => .foreign .notExpression

def textAt (place : Nat) : Json → Except Misfit String
  | .str s => .ok s
  | v => .error (.notText place (sortOf v))

def textsFrom (place : Nat) : List Json → Except Misfit (List String)
  | [] => .ok []
  | v :: rest => do
    let first ← textAt place v
    let others ← textsFrom (place + 1) rest
    return first :: others

def parametersOf (place : Nat) (v : Json) : Except Misfit (List String) := do
  let names ← (← elementsOf v).mapM (partOrMisfit · "name")
  textsFrom place names

def optional {α : Type} (f : Json → α) : Json → Option α
  | .null => none
  | v => some (f v)

def importOf : Json → Stmt
  | .str s => .importModule s
  | v => .expr (.foreign (if isKeyless v then .notName (sortOf v) else .notDirectory (sortOf v)))

def lineOf (v : Json) : Stmt :=
  match namelessSort? v with
  | some sort => .expr (.foreign (.notLine sort))
  | none => .expr (exprOf (v.depth + 1) v)

mutual

def stmtOf : (budget : Nat) → Json → Stmt
  | 0, _ => .foreign
  | n + 1, v =>
    let e (name : String) := exprOf ((part v name).depth + 1) (part v name)
    let body (name : String) := bodyOf n (part v name)
    let text (name : String) := textOf (part v name)
    match sortOf v with
    | "LetStatement" => .letVar (text "name") (e "value")
    | "SetStatement" => .assign (text "name") (e "value")
    | "ImportStatement" => importOf (part v "module")
    | "ReturnStatement" => .result (optional (fun _ => e "value") (part v "value"))
    | "ExpressionStatement" => lineOf (part v "expression")
    | "IfStatement" =>
      .cond (e "condition") (body "consequence")
        (optional (fun _ => body "alternative") (part v "alternative"))
    | "ForStatement" => .forEach (text "target") (e "iterable") (body "body")
    | "WhileStatement" => .loop (e "condition") (body "body")
    | "TryStatement" =>
      .guarded (body "try_block")
        (if (part v "error_variable").truthy then some (text "error_variable") else none)
        (body "catch_block")
    | "Function" =>
      match parametersOf 1 (part v "parameters") with
      | .ok names => .function (text "name") names (body "body")
      | .error why => .function (text "name") [] (.foreign why)
    | _ => .foreign

def bodyOf : (budget : Nat) → Json → Body
  | 0, v => .foreign (.noPart (sortOf v) "statements")
  | n + 1, v =>
    match partOrMisfit v "statements" >>= elementsOf with
    | .ok items => .block (items.map (stmtOf n))
    | .error why => .foreign why

end

def wholeBody (v : Json) : Body :=
  bodyOf (v.depth + 1) v

def functionOf (v : Json) : Function :=
  let f : Except Misfit Function := do
    let names ← parametersOf 0 (← partOrMisfit v "parameters")
    let name ← partOrMisfit v "name"
    return ⟨textOf name, names, wholeBody (part v "body")⟩
  match f with
  | .ok f => f
  | .error why => ⟨"", [], .foreign why⟩

def superclassOf (v : Json) : Except Misfit (Option String) :=
  if !v.truthy then .ok none
  else if sortOf v == "Literal" then .ok (some (literalOf v).plain)
  else (partOrMisfit v "value").map fun value => some (textOf value)

def classOf (v : Json) : ClassDecl :=
  match partOrMisfit v "superclass" >>= superclassOf with
  | .ok superclass => ⟨textOf (part v "name"), superclass, wholeBody (part v "body")⟩
  | .error why => ⟨"", none, .foreign why⟩

def listed {α : Type} (f : Json → α) (misfit : Misfit → α) (v : Json) (name : String) : List α :=
  match partOrMisfit v name >>= elementsOf with
  | .ok items => items.map f
  | .error why => [misfit why]

def programOf (v : Json) : Except Number.ReadError Program := do
  checkLiterals v
  return ⟨listed functionOf (fun why => ⟨"", [], .foreign why⟩) v "functions",
    listed (fun s => stmtOf (s.depth + 1) s) (fun why => .expr (.foreign why)) v "statements",
    listed classOf (fun why => ⟨"", none, .foreign why⟩) v "classes"⟩

/-! ## Writing -/

def node (sort : String) (parts : Json.Fields) : Json :=
  .obj (("node", .str sort) :: parts)

def Literal.kind : Literal → String
  | .int _ => "int"
  | .real _ => "float"
  | .text _ => "str"
  | .truth _ => "bool"

mutual

def exprData : Expr → Json
  | .literal l => node "Literal" [("type", .str l.kind), ("value", .str l.plain)]
  | .name n => node "Identifier" [("value", .str n)]
  | .this => node "This" []
  | .attribute target field =>
    node "Attribute" [("value", exprData target), ("attribute", .str field)]
  | .unary op x => node "UnaryOperation" [("operator", .str op.symbol), ("operand", exprData x)]
  | .binary left op right =>
    node "BinaryOperation"
      [("left", exprData left), ("operator", .str op.symbol), ("right", exprData right)]
  | .range first last => node "RangeExpression" [("start", exprData first), ("end", exprData last)]
  | .list es => node "ListExpression" [("elements", .arr (exprsData es))]
  | .index target position =>
    node "IndexExpression" [("target", exprData target), ("index", exprData position)]
  | .call callee es =>
    node "CallExpression" [("callee", exprData callee), ("arguments", .arr (exprsData es))]
  | .foreign _ => node "Object" []

def exprsData : List Expr → List Json
  | [] => []
  | e :: es => exprData e :: exprsData es

end

def parameterData (name : String) : Json :=
  node "Parameter" [("name", .str name)]

def functionData (name : String) (parameters : List String) (body : Json) : Json :=
  node "Function" [("name", .str name), ("parameters", .arr (parameters.map parameterData)),
    ("body", body)]

def textData : Option String → Json
  | some s => .str s
  | none => .null

mutual

def stmtData : Stmt → Json
  | .letVar n e => node "LetStatement" [("name", .str n), ("value", exprData e)]
  | .assign n e => node "SetStatement" [("name", .str n), ("value", exprData e)]
  | .importModule m => node "ImportStatement" [("module", .str m)]
  | .result none => node "ReturnStatement" [("value", .null)]
  | .result (some e) => node "ReturnStatement" [("value", exprData e)]
  | .expr e => node "ExpressionStatement" [("expression", exprData e)]
  | .cond test body none =>
    node "IfStatement" [("condition", exprData test), ("consequence", bodyData body),
      ("alternative", .null)]
  | .cond test body (some alternative) =>
    node "IfStatement" [("condition", exprData test), ("consequence", bodyData body),
      ("alternative", bodyData alternative)]
  | .forEach target e body =>
    node "ForStatement" [("target", .str target), ("iterable", exprData e), ("body", bodyData body)]
  | .loop test body => node "WhileStatement" [("condition", exprData test), ("body", bodyData body)]
  | .guarded body name handler =>
    node "TryStatement" [("try_block", bodyData body), ("error_variable", textData name),
      ("catch_block", bodyData handler)]
  | .function name parameters body => functionData name parameters (bodyData body)
  | .foreign => node "Object" []

def bodyData : Body → Json
  | .block ss => node "Block" [("statements", .arr (stmtsData ss))]
  | .single s => stmtData s
  | .foreign _ => node "Object" []

def stmtsData : List Stmt → List Json
  | [] => []
  | s :: ss => stmtData s :: stmtsData ss

end

def classData (c : ClassDecl) : Json :=
  node "Class" [("name", .str c.name),
    ("superclass", match c.superclass with
      | some n => exprData (.name n)
      | none => .null),
    ("body", bodyData c.body)]

def programData (p : Program) : Json :=
  node "Program" [
    ("functions", .arr (p.functions.map fun f => functionData f.name f.parameters (bodyData f.body))),
    ("statements", .arr (stmtsData p.statements)), ("classes", .arr (p.classes.map classData))]

mutual

def renewed : Json → Json
  | .arr items => .arr (renewedItems items)
  | .obj fields =>
    if sortOf (.obj fields) == "Literal" then exprData (.literal (literalOf (.obj fields)))
    else .obj (renewedFields fields)
  | v => v

def renewedItems : List Json → List Json
  | [] => []
  | v :: vs => renewed v :: renewedItems vs

def renewedFields : Json.Fields → Json.Fields
  | [] => []
  | (k, v) :: rest => (k, renewed v) :: renewedFields rest

end

end ScriptWorkbench.Ast
