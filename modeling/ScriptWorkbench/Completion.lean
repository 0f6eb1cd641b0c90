/-
Suggestions for a word that is being written.

The word is the last one on the line up to a mark, and the mark is looked up in the text itself: its first
occurrence counts.
-/
import ScriptWorkbench.Catalog
import ScriptWorkbench.Text.Blank
import ScriptWorkbench.Text.Search

namespace ScriptWorkbench.Completion

def vocabulary : List String :=
  Catalog.keywords ++ Catalog.builtins.map (·.1) ++ Catalog.drawingFunctions.map (·.1) ++
    Catalog.drawingColors ++ Catalog.callAliases.map (·.1)

def limit : Nat := 10

def dropRepeats : List String → List String
  | a :: b :: rest => if a = b then dropRepeats (b :: rest) else a :: dropRepeats (b :: rest)
  | l => l

def namesFor (word : String) : List String :=
  (dropRepeats ((vocabulary.filter fun n => Text.startsWith n word).mergeSort (· ≤ ·))).take limit

def lastLine (cs : List Char) : List Char :=
  (cs.reverse.takeWhile (· != '\n')).reverse

def lastWord? (line : List Char) : Option String :=
  let back := line.reverse.dropWhile fun c => !Text.isWordChar c
  match back.takeWhile Text.isWordChar with
  | [] => none
  | word => some (String.ofList word.reverse)

def wordBefore? (text mark : String) : Option String :=
  (Text.indexOf? mark.toList text.toList).bind fun n =>
    lastWord? (lastLine (text.toList.take n))

def suggest (last text mark : String) : List String × String :=
  match wordBefore? text mark with
  | some word => (namesFor word, word)
  | none => ([], last)

end ScriptWorkbench.Completion
