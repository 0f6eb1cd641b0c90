/-
The guide to the language that is shown beside the editor: everything, or the functions whose name or
description holds a term.
-/
import ScriptWorkbench.Catalog
import ScriptWorkbench.Text.LetterCase
import ScriptWorkbench.Text.Search

namespace ScriptWorkbench.Editor

/-- A piece of text in a style. -/
structure Piece where
  text : String
  style : String
deriving Repr, DecidableEq

def allCategories : String := "Todos"

def rule (c : Char) : String :=
  String.ofList (List.replicate 60 c)

def entry (before after name : String) (h : Catalog.Help) : List Piece :=
  [⟨before ++ "• " ++ name ++ "\n", "title"⟩, ⟨"  " ++ h.signature ++ "\n", "signature"⟩,
   ⟨"  " ++ h.description ++ "\n", "description"⟩,
   ⟨"  Ejemplo: " ++ h.usage ++ "\n" ++ after, "example"⟩]

def sectionHead (title : String) : List Piece :=
  [⟨"\n" ++ title ++ "\n", "category"⟩, ⟨rule '─' ++ "\n", ""⟩]

def functionSection (title : String) (functions : List (String × Catalog.Help)) : List Piece :=
  sectionHead title ++ functions.flatMap fun f => entry "\n" "" f.1 f.2

def keywordSection : List Piece :=
  sectionHead "PALABRAS CLAVE" ++ [⟨", ".intercalate Catalog.keywords ++ "\n", "description"⟩]

def aliasSection : List Piece :=
  sectionHead "ALIAS DE FUNCIONES" ++
    (Catalog.callAliases.take 10).map fun a => ⟨s!"  {a.1} → {a.2}\n", "description"⟩

def fullGuide : List Piece :=
  [⟨rule '═' ++ "\n", ""⟩, ⟨"DOCUMENTACIÓN OPN LANGUAGE\n", "title"⟩, ⟨rule '═' ++ "\n\n", ""⟩] ++
    functionSection "FUNCIONES BUILTIN" Catalog.builtins ++
    functionSection "FUNCIONES GFX" Catalog.drawingFunctions ++ keywordSection ++ aliasSection

def matching (term : String) (functions : List (String × Catalog.Help)) :
    List (String × Catalog.Help) :=
  functions.filter fun f =>
    Text.occursIn term (Text.lower f.1) || Text.occursIn term (Text.lower f.2.description)

def filteredGuide (term category : String) : List Piece :=
  let term := Text.lower term
  if term == "" && category == allCategories then fullGuide
  else
    let found (name : String) (functions : List (String × Catalog.Help)) : List Piece :=
      if category == allCategories || category == name then
        (matching term functions).flatMap fun f => entry "" "\n" f.1 f.2
      else []
    ⟨s!"Resultados de búsqueda: \"{term}\" en {category}\n\n", "title"⟩ ::
      (found "Builtins" Catalog.builtins ++ found "GFX" Catalog.drawingFunctions)

end ScriptWorkbench.Editor
