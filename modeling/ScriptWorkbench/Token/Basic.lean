/-
Tokens of the script language.

Keywords and symbols have a kind each; identifiers, numbers and string literals share one per class; the end
of the input is a token of its own. The order of the three tables is part of what the workbench shows, so they
are lists.
-/

set_option autoImplicit false

namespace ScriptWorkbench.Token

/-- The kinds of tokens. -/
inductive Kind where
  | funcWord | mainWord | letWord | returnWord | ifWord | elseWord | forWord | tryWord | catchWord
  | importWord | whileWord | inWord | trueWord | falseWord | andWord | orWord | notWord | classWord
  | thisWord | extendsWord
  | leftBrace | rightBrace | leftParen | rightParen | leftBracket | rightBracket
  | semicolon | comma | plus | minus | star | slash | less | greater | equal | bang | dot
  | equalEqual | bangEqual | lessEqual | greaterEqual | dotDot
  | identifier | number | text | endOfInput
  | other (name : String)
deriving Repr, DecidableEq, Inhabited

/-- A place in a source, counted from one. -/
structure Position where
  line : Nat
  column : Nat
deriving Repr, DecidableEq, Inhabited

def Position.start : Position := ⟨1, 1⟩

def Position.advance (p : Position) (n : Nat) : Position := ⟨p.line, p.column + n⟩

def Position.nextLine (p : Position) : Position := ⟨p.line + 1, 1⟩

end Token

/-- A token; the end of the input is one, with an empty text. -/
structure Token where
  kind : Token.Kind
  value : String
  position : Token.Position
deriving Repr, DecidableEq, Inhabited

namespace Token

/-! ## Tables -/

def keywords : List (String × Kind) :=
  [("func", .funcWord), ("main", .mainWord), ("let", .letWord), ("return", .returnWord),
   ("if", .ifWord), ("else", .elseWord), ("for", .forWord), ("try", .tryWord),
   ("catch", .catchWord), ("import", .importWord), ("while", .whileWord), ("in", .inWord),
   ("true", .trueWord), ("false", .falseWord), ("and", .andWord), ("or", .orWord),
   ("not", .notWord), ("class", .classWord), ("this", .thisWord), ("extends", .extendsWord)]

def symbols : List (Char × Kind) :=
  [('{', .leftBrace), ('}', .rightBrace), ('(', .leftParen), (')', .rightParen),
   ('[', .leftBracket), (']', .rightBracket), (';', .semicolon), (',', .comma), ('+', .plus),
   ('-', .minus), ('*', .star), ('/', .slash), ('<', .less), ('>', .greater), ('=', .equal),
   ('!', .bang), ('.', .dot)]

def doubleSymbols : List ((Char × Char) × Kind) :=
  [(('=', '='), .equalEqual), (('!', '='), .bangEqual), (('<', '='), .lessEqual),
   (('>', '='), .greaterEqual), (('.', '.'), .dotDot)]

def wordKind (word : String) : Kind :=
  (keywords.lookup word).getD .identifier

/-! ## Names -/

def kindNames : List (Kind × String) :=
  [(.funcWord, "FUNC"), (.mainWord, "MAIN"), (.letWord, "LET"), (.returnWord, "RETURN"),
   (.ifWord, "IF"), (.elseWord, "ELSE"), (.forWord, "FOR"), (.tryWord, "TRY"),
   (.catchWord, "CATCH"), (.importWord, "IMPORT"), (.whileWord, "WHILE"), (.inWord, "IN"),
   (.trueWord, "TRUE"), (.falseWord, "FALSE"), (.andWord, "AND"), (.orWord, "OR"),
   (.notWord, "NOT"), (.classWord, "CLASS"), (.thisWord, "THIS"), (.extendsWord, "EXTENDS"),
   (.leftBrace, "LBRACE"), (.rightBrace, "RBRACE"), (.leftParen, "LPAREN"),
   (.rightParen, "RPAREN"), (.leftBracket, "LBRACKET"), (.rightBracket, "RBRACKET"),
   (.semicolon, "SEMICOLON"), (.comma, "COMMA"), (.plus, "PLUS"), (.minus, "MINUS"),
   (.star, "STAR"), (.slash, "SLASH"), (.less, "LT"), (.greater, "GT"), (.equal, "EQUAL"),
   (.bang, "BANG"), (.dot, "DOT"), (.equalEqual, "EQ"), (.bangEqual, "NEQ"),
   (.lessEqual, "LTE"), (.greaterEqual, "GTE"), (.dotDot, "RANGE"), (.identifier, "IDENT"),
   (.number, "NUMBER"), (.text, "STRING"), (.endOfInput, "EOF")]

def Kind.name : Kind → String
  | .other name => name
  | k => (kindNames.lookup k).getD ""

def Kind.ofName (name : String) : Kind :=
  match kindNames.find? fun e => e.2 == name with
  | some e => e.1
  | none => .other name

end Token

end ScriptWorkbench
