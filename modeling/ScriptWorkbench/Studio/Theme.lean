/-
What the studio knows about languages. The language of a file is told by the extension of its name.
-/
import ScriptWorkbench.Files.Path
import ScriptWorkbench.Text.LetterCase

namespace ScriptWorkbench.Studio

/-- A pattern, and how its matches are shown. -/
structure Rule where
  pattern : String
  color : String
  style : String
deriving Repr, DecidableEq, Inhabited

/-- What is known of a language. -/
structure Language where
  rules : List Rule
  completions : List String
  command : Option String
deriving Repr, DecidableEq, Inhabited

/-- A text that a word stands for. -/
structure Snippet where
  body : String
  description : String
deriving Repr, DecidableEq, Inhabited

/-- The snippets of a language, by their words. -/
abbrev SnippetTable := List (String × Snippet)

/-- Colours, languages and snippets. -/
structure Theme where
  palette : List (String × String)
  languages : List (String × Language)
  extensions : List (String × String)
  fallback : String
  snippets : List (String × SnippetTable)
deriving Repr, DecidableEq, Inhabited

namespace Theme

def plainColor : String := "#D4D4D4"

def colorOf (t : Theme) (key : String) : String :=
  (t.palette.lookup key).getD plainColor

def extensionOf (path : String) : String :=
  let letters := Text.lower (Path.extension (Path.lastPart path))
  String.ofList (letters.toList.dropWhile (· == '.'))

def languageOf (t : Theme) (path : Option String) : String :=
  match path with
  | none => t.fallback
  | some path =>
    if path.toList.contains '.' then
      (t.extensions.lookup (extensionOf path)).getD t.fallback
    else t.fallback

def language (t : Theme) (id : String) : Language :=
  (t.languages.lookup id).getD ((t.languages.lookup "default").getD default)

def snippetsOf (t : Theme) (id : String) : SnippetTable :=
  (t.snippets.lookup id).getD []

def withSnippets (t : Theme) (id : String) (table : SnippetTable) : Theme :=
  { t with snippets := (id, table) :: t.snippets.filter (·.1 != id) }

end Theme

end ScriptWorkbench.Studio
