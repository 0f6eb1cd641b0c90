/-
What can be wrong with a written pattern. The place of a fault is given by the number of characters that were
left to read. A pattern that reads well can still be refused as a whole.
-/
import ScriptWorkbench.Number.Read
import ScriptWorkbench.Pattern.Basic

namespace ScriptWorkbench.Pattern

/-- What can be wrong at a place of a pattern. -/
inductive Fault where
  | unterminatedSet
  | missingParenthesis
  | unterminatedComment
  | unbalancedParenthesis
  | nothingToRepeat
  | multipleRepeat
  | badBounds
  | danglingBackslash
  | endOfPattern
  | badEscape (text : List Char)
  | incompleteEscape (text : List Char)
  | octalTooLarge (text : List Char)
  | badRange (first last : List Char)
  | unknownExtension (text : List Char)
  | noGroup (index : Nat)
  | openGroup
  | groupBehind
  | zeroGroup
  | thirdBranch
  | unknownName (name : List Char)
  | badName (name : List Char)
  | missingName (what : String)
  | unterminatedName (closing : Char)
  | missingBrace
  | unknownCharacter (name : List Char)
  | doubleName (name : List Char) (index earlier : Nat)
  | lateFlags
  | unknownFlag
  | missingFlag
  | missingFlagEnd
  | missingColon
  | localFlag
  | incompatibleFlags
  | lastingFlag
  | contradictoryFlags
  | scopedWholeFlag
  | lastingWholeFlag
deriving Repr, DecidableEq

/-- Why a text is no pattern; a place is given by what is left of the text. -/
inductive ReadError where
  | at (fault : Fault) (left : Nat)
  | tooManyRounds
  | tooManyDigits (count : Nat)
  | twoAlphabets
  | variableWidth
  | tooWide
  | forbiddenRepetition (manner : Manner)
deriving Repr, DecidableEq

def Fault.message : Fault → String
  | .unterminatedSet => "unterminated character set"
  | .missingParenthesis => "missing ), unterminated subpattern"
  | .unterminatedComment => "missing ), unterminated comment"
  | .unbalancedParenthesis => "unbalanced parenthesis"
  | .nothingToRepeat => "nothing to repeat"
  | .multipleRepeat => "multiple repeat"
  | .badBounds => "min repeat greater than max repeat"
  | .danglingBackslash => "bad escape (end of pattern)"
  | .endOfPattern => "unexpected end of pattern"
  | .badEscape text => "bad escape " ++ String.ofList text
  | .incompleteEscape text => "incomplete escape " ++ String.ofList text
  | .octalTooLarge text =>
    "octal escape value " ++ String.ofList text ++ " outside of range 0-0o377"
  | .badRange first last => "bad character range " ++ String.ofList (first ++ '-' :: last)
  | .unknownExtension text => "unknown extension ?" ++ String.ofList text
  | .noGroup index => s!"invalid group reference {index}"
  | .openGroup => "cannot refer to an open group"
  | .groupBehind => "cannot refer to group defined in the same lookbehind subpattern"
  | .zeroGroup => "bad group number"
  | .thirdBranch => "conditional backref with more than two branches"
  | .unknownName name => "unknown group name " ++ Text.quote (String.ofList name)
  | .badName name => "bad character in group name " ++ Text.quote (String.ofList name)
  | .missingName what => "missing " ++ what
  | .unterminatedName closing => "missing " ++ String.ofList [closing] ++ ", unterminated name"
  | .missingBrace => "missing \x7b"
  | .unknownCharacter name => "undefined character name " ++ Text.quote (String.ofList name)
  | .doubleName name index earlier =>
    "redefinition of group name " ++ Text.quote (String.ofList name) ++
      s!" as group {index}; was group {earlier}"
  | .lateFlags => "global flags not at the start of the expression"
  | .unknownFlag => "unknown flag"
  | .missingFlag => "missing flag"
  | .missingFlagEnd => "missing -, : or )"
  | .missingColon => "missing :"
  | .localFlag => "bad inline flags: cannot use 'L' flag with a str pattern"
  | .incompatibleFlags => "bad inline flags: flags 'a', 'u' and 'L' are incompatible"
  | .lastingFlag => "bad inline flags: cannot turn off flags 'a', 'u' and 'L'"
  | .contradictoryFlags => "bad inline flags: flag turned on and off"
  | .scopedWholeFlag => "bad inline flags: cannot turn on global flag"
  | .lastingWholeFlag => "bad inline flags: cannot turn off global flag"

def Manner.word : Manner → String
  | .greedy => "MAX_REPEAT"
  | .sparing => "MIN_REPEAT"
  | .firm => "POSSESSIVE_REPEAT"

/-- The wording of a failure in a written pattern. The place is given as a line and a column too when
the pattern has several lines. -/
def ReadError.message (text : List Char) : ReadError → String
  | .at fault left =>
    let position := text.length - left
    let before := text.take position
    let line := before.count '\n' + 1
    let column := (before.reverse.takeWhile (· != '\n')).length + 1
    fault.message ++ s!" at position {position}" ++
      (if text.contains '\n' then s!" (line {line}, column {column})" else "")
  | .tooManyRounds => "the repetition number is too large"
  | .tooManyDigits count => (Number.ReadError.tooLong count).message
  | .twoAlphabets => "ASCII and UNICODE flags are incompatible"
  | .variableWidth => "look-behind requires fixed-width pattern"
  | .tooWide => "invalid SRE code"
  | .forbiddenRepetition manner => "internal: unsupported template operator " ++ manner.word

end ScriptWorkbench.Pattern
