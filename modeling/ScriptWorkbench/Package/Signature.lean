/-
Signatures of functions, read off the source text by patterns and not by the grammar.
-/
import ScriptWorkbench.Pattern.Matching
import ScriptWorkbench.Pattern.Reader

namespace ScriptWorkbench.Package

/-- A parameter and its type, which may be empty. -/
structure Parameter where
  name : String
  type : String
deriving Repr, DecidableEq

/-- A function as an index lists it. -/
structure Signature where
  name : String
  parameters : List Parameter
  description : String
deriving Repr, DecidableEq

def Signature.category : String := "core"

def Signature.resultType : String := "any"

def patternOf (text : String) : Pattern :=
  match Pattern.read .empty { Pattern.Options.none with dotAll := true } text.toList with
  | .ok p => p
  | .error _ => .nothing

/-- A signature is the word `func`, a name, a parenthesised list and an arrow or an opening brace, wherever in
the text they stand. -/
def signaturePattern : Pattern :=
  patternOf "func\\s+(\\w+)\\s*\\((.*?)\\)\\s*(?:->|\x7b)"

/-- The description of a function is what stands between the first slashes from which a declaration of that
name can be reached and that declaration. -/
def descriptionPattern (name : String) : Pattern :=
  patternOf ("//\\s*(.*?)func\\s+" ++ name ++ "\\s*\\(")

def parameterOf (text : String) : Parameter :=
  match Text.splitChar ':' text with
  | name :: type :: _ => ⟨Text.trim name, Text.trim type⟩
  | _ => ⟨Text.trim text, "any"⟩

def parametersOf (text : String) : List Parameter :=
  (((Text.splitChar ',' (Text.trim text)).map Text.trim).filter (· != "")).map parameterOf

def signatureOf (code : List Char) (m : Pattern.Found) : Signature :=
  ⟨String.ofList ((m.group? 1 code).getD []),
   parametersOf (String.ofList ((m.group? 2 code).getD [])), ""⟩

def signatures (code : String) : List Signature :=
  (signaturePattern.findAll code.toList).map (signatureOf code.toList)

def descriptionLine (line : String) : String :=
  Text.trim (String.ofList ((Text.trim line).toList.dropWhile (· == '/')))

def joinDescription (text : String) : String :=
  " ".intercalate
    (((Text.lines (Text.trim text)).filter (Text.trim · != "")).map descriptionLine)

def describe (code : String) (s : Signature) : Signature :=
  match (descriptionPattern s.name).find? code.toList with
  | none => s
  | some m =>
    { s with description := joinDescription (String.ofList ((m.group? 1 code.toList).getD [])) }

def documentedSignatures (code : String) : List Signature :=
  (signatures code).map (describe code)

end ScriptWorkbench.Package
