/-
The reference grammar of the language.

Lexical rules, in an order, cut a text into pieces: each piece is as long as any rule can make it, and of the
rules that fit the first one names it. Comments and blanks are dropped, and what is left, the words, is
derived by the rules for expressions, statements and functions. This file states both layers on their own,
without the scanner and the parser. As it was written down, the grammar leads an assignment with the word
`set`. The word is a parameter here, so that the grammar can be had without it.
-/
import ScriptWorkbench.Proofs.Grammar

namespace ScriptWorkbench.Reference

open Ast Token

variable {e : Expr}

/-! ## Lexical rules -/

/-- The lexical rules. -/
inductive Rule where
  | fixed (kind : Kind) (spelling : String)
  | number
  | text
  | name
  | comment
  | blanks
deriving DecidableEq

def Rule.kind? : Rule → Option Kind
  | .fixed kind _ => some kind
  | .number => some .number
  | .text => some .text
  | .name => some .identifier
  | .comment | .blanks => none

def isNumeral (cs : List Char) : Bool :=
  !(cs.takeWhile Char.isDigit).isEmpty &&
    match cs.dropWhile Char.isDigit with
    | [] => true
    | c :: es => c == '.' && !es.isEmpty && es.all Char.isDigit

/-- The rest of a string literal: the first quote that no backslash protects is the last character. -/
def closesText : List Char → Bool
  | [] => false
  | '\\' :: cs =>
    match cs with
    | [] => false
    | _ :: cs => closesText cs
  | c :: cs => if c = '"' then cs.isEmpty else closesText cs

def isName : List Char → Bool
  | [] => false
  | c :: cs => (c.isAlpha || c == '_') && cs.all fun d => d.isAlphanum || d == '_'

def Rule.fits : Rule → List Char → Bool
  | .fixed _ spelling, cs => cs == spelling.toList
  | .number, cs => isNumeral cs
  | .text, cs => cs.head? == some '"' && closesText cs.tail
  | .name, cs => isName cs
  | .comment, cs => cs.head? == some '#' && cs.tail.all fun c => c != '\r' && c != '\n'
  | .blanks, cs => !cs.isEmpty && cs.all isGap

def setWord : Kind × String := (.other "SET", "set")

section Lexis

variable (lead : List (Kind × String))

def fixedWords : List (Kind × String) :=
  (.letWord, "let") :: lead ++
  [(.returnWord, "return"), (.funcWord, "func"), (.mainWord, "main"), (.ifWord, "if"),
   (.elseWord, "else"), (.forWord, "for"), (.inWord, "in"), (.trueWord, "true"), (.falseWord, "false"),
   (.andWord, "and"), (.orWord, "or"), (.notWord, "not"), (.equalEqual, "=="), (.bangEqual, "!="),
   (.lessEqual, "<="), (.greaterEqual, ">="), (.less, "<"), (.greater, ">"), (.dotDot, ".."),
   (.plus, "+"), (.minus, "-"), (.star, "*"), (.slash, "/"), (.equal, "="), (.leftParen, "("),
   (.rightParen, ")"), (.leftBrace, "\x7b"), (.rightBrace, "\x7d"), (.semicolon, ";"), (.comma, ","),
   (.dot, ".")]

def rules : List Rule :=
  (fixedWords lead).map (fun w => .fixed w.1 w.2) ++ [.number, .text, .name, .comment, .blanks]

/-- **The rule makes the text a piece** before the rest: it fits, no rule fits more, and no earlier rule
fits as much. -/
def Makes (r : Rule) (text rest : List Char) : Prop :=
  r ∈ rules lead ∧ r.fits text = true ∧
    (∀ n < rest.length, ∀ r' ∈ rules lead, r'.fits (text ++ rest.take (n + 1)) = false) ∧
    ∀ r' ∈ (rules lead).takeWhile (· != r), r'.fits text = false

end Lexis

structure Piece where
  rule : Rule
  text : List Char

def Piece.ofFixed (kind : Kind) (spelling : String) : Piece := ⟨.fixed kind spelling, spelling.toList⟩

def joined : List Piece → List Char
  | [] => []
  | p :: ps => p.text ++ joined ps

def Lexed (lead : List (Kind × String)) : List Piece → Prop
  | [] => True
  | p :: ps => Makes lead p.rule p.text (joined ps) ∧ Lexed lead ps

instance decidableLexed (lead : List (Kind × String)) : (ps : List Piece) → Decidable (Lexed lead ps)
  | [] => inferInstanceAs (Decidable True)
  | _ :: ps =>
    have := decidableLexed lead ps
    inferInstanceAs (Decidable ((_ ∧ _ ∧ _ ∧ _) ∧ Lexed lead ps))

abbrev Word := Kind × List Char

def words (ps : List Piece) : List Word := ps.filterMap fun p => p.rule.kind?.map (·, p.text)

/-! ## Syntax -/

def spelled : List Char → List Char
  | [] => []
  | '\\' :: cs =>
    match cs with
    | [] => []
    | e :: cs => (unescape? e).getD e :: spelled cs
  | c :: cs => c :: spelled cs

open Grammar (Operator PrefixOperator tightest Phrase Part)

/-- **Expressions.** The words derive the phrase. -/
inductive Derives : Phrase → List Word → Prop where
  | signed {e : Expr} {us : List Word} : Derives (.signed e) us → Derives (.level tightest e) us
  | tighter {k : Nat} {e : Expr} {us : List Word} :
      k < tightest → Derives (.level (k + 1) e) us → Derives (.level k e) us
  | operator {k : Nat} {l r : Expr} {op : BinaryOp} {w : Word} {us vs : List Word} :
      Derives (.level k l) us → Operator k w.1 op → Derives (.level (k + 1) r) vs →
      Derives (.level k (.binary l op r)) (us ++ w :: vs)
  | sign {e : Expr} {op : UnaryOp} {w : Word} {us : List Word} :
      PrefixOperator w.1 op → Derives (.signed e) us → Derives (.signed (.unary op e)) (w :: us)
  | applied {e : Expr} {us : List Word} : Derives (.applied e) us → Derives (.signed e) us
  | primary {e : Expr} {us : List Word} : Derives (.primary e) us → Derives (.applied e) us
  | callNothing {e : Expr} {w x : Word} {us : List Word} :
      Derives (.applied e) us → w.1 = .leftParen → x.1 = .rightParen →
      Derives (.applied (.call e [])) (us ++ [w, x])
  | call {e : Expr} {es : List Expr} {w x : Word} {us vs : List Word} :
      Derives (.applied e) us → w.1 = .leftParen → Derives (.items es) vs → x.1 = .rightParen →
      Derives (.applied (.call e es)) (us ++ w :: (vs ++ [x]))
  | field {e : Expr} {w x : Word} {us : List Word} :
      Derives (.applied e) us → w.1 = .dot → x.1 = .identifier →
      Derives (.applied (.attribute e (String.ofList x.2))) (us ++ [w, x])
  | whole {c : Char} {ds : List Char} :
      (∀ d ∈ c :: ds, d.isDigit = Bool.true) →
      Derives (.primary (.literal (.int (Number.digitsValue (c :: ds))))) [(.number, c :: ds)]
  | decimal {c : Char} {ds es : List Char} :
      (∀ d ∈ c :: ds, d.isDigit = Bool.true) → es ≠ [] → (∀ d ∈ es, d.isDigit = Bool.true) →
      Derives (.primary (.literal (.real (.ofDecimal Bool.false
        (Number.digitsValue (c :: ds ++ es)) (-es.length))))) [(.number, c :: ds ++ '.' :: es)]
  | text {body : List Char} :
      Derives (.primary (.literal (.text (String.ofList (spelled body))))) [(.text, '"' :: (body ++ ['"']))]
  | true {w : Word} : w.1 = .trueWord → Derives (.primary (.literal (.truth Bool.true))) [w]
  | false {w : Word} : w.1 = .falseWord → Derives (.primary (.literal (.truth Bool.false))) [w]
  | name {w : Word} : w.1 = .identifier → Derives (.primary (.name (String.ofList w.2))) [w]
  | group {e : Expr} {w x : Word} {us : List Word} :
      w.1 = .leftParen → Derives (.level 0 e) us → x.1 = .rightParen →
      Derives (.primary e) (w :: (us ++ [x]))
  | one {e : Expr} {us : List Word} : Derives (.level 0 e) us → Derives (.items [e]) us
  | more {e : Expr} {es : List Expr} {w : Word} {us vs : List Word} :
      Derives (.level 0 e) us → w.1 = .comma → Derives (.items es) vs →
      Derives (.items (e :: es)) (us ++ w :: vs)

theorem Derives.looser {j k : Nat} (hjk : j ≤ k) (hk : k ≤ Grammar.tightest) {us : List Word}
    (h : Derives (.level k e) us) : Derives (.level j e) us := by
  induction hjk with
  | refl => exact h
  | step _ ih => exact ih (by omega) (.tighter (by omega) h)

theorem Derives.of_primary {k : Nat} (hk : k ≤ Grammar.tightest) {us : List Word}
    (h : Derives (.primary e) us) : Derives (.level k e) us :=
  .looser hk (Nat.le_refl _) (.signed (.applied (.primary h)))

abbrev Expression (e : Expr) (us : List Word) : Prop := Derives (.level 0 e) us

/-- What a loop may run over. -/
inductive Source : Expr → List Word → Prop where
  | value {e : Expr} {us : List Word} : Expression e us → Source e us
  | range {first last : Expr} {w : Word} {us vs : List Word} :
      Expression first us → w.1 = .dotDot → Expression last vs →
      Source (.range first last) (us ++ w :: vs)

/-- **Statements.** The words form the part. -/
inductive Forms (lead : List (Kind × String)) : Part → List Word → Prop where
  | letVar {e : Expr} {w name eq semi : Word} {us : List Word} :
      w.1 = .letWord → name.1 = .identifier → eq.1 = .equal → Expression e us →
      semi.1 = .semicolon →
      Forms lead (.statement (.letVar (String.ofList name.2) e)) (w :: name :: eq :: (us ++ [semi]))
  | assign {e : Expr} {name eq semi : Word} {ws us : List Word} :
      ws.map Prod.fst = lead.map Prod.fst → name.1 = .identifier → eq.1 = .equal → Expression e us →
      semi.1 = .semicolon →
      Forms lead (.statement (.assign (String.ofList name.2) e)) (ws ++ name :: eq :: (us ++ [semi]))
  | returnNothing {w semi : Word} :
      w.1 = .returnWord → semi.1 = .semicolon → Forms lead (.statement (.result none)) [w, semi]
  | returnValue {e : Expr} {w semi : Word} {us : List Word} :
      w.1 = .returnWord → Expression e us → semi.1 = .semicolon →
      Forms lead (.statement (.result (some e))) (w :: (us ++ [semi]))
  | cond {e : Expr} {ss : List Stmt} {b : Option Body} {w : Word} {us vs xs : List Word} :
      w.1 = .ifWord → Expression e us → Forms lead (.block ss) vs → Forms lead (.otherwise b) xs →
      Forms lead (.statement (.cond e (.block ss) b)) (w :: (us ++ (vs ++ xs)))
  | forEach {e : Expr} {ss : List Stmt} {w name within : Word} {us vs : List Word} :
      w.1 = .forWord → name.1 = .identifier → within.1 = .inWord → Source e us →
      Forms lead (.block ss) vs →
      Forms lead (.statement (.forEach (String.ofList name.2) e (.block ss)))
        (w :: name :: within :: (us ++ vs))
  | expr {e : Expr} {semi : Word} {us : List Word} :
      Expression e us → semi.1 = .semicolon → Forms lead (.statement (.expr e)) (us ++ [semi])
  | nothing : Forms lead (.otherwise none) []
  | elseBlock {ss : List Stmt} {w : Word} {us : List Word} :
      w.1 = .elseWord → Forms lead (.block ss) us →
      Forms lead (.otherwise (some (.block ss))) (w :: us)
  | block {ss : List Stmt} {w : Word} {us : List Word} :
      w.1 = .leftBrace → Forms lead (.closing ss) us → Forms lead (.block ss) (w :: us)
  | close {w : Word} : w.1 = .rightBrace → Forms lead (.closing []) [w]
  | cons {s : Stmt} {ss : List Stmt} {us vs : List Word} :
      Forms lead (.statement s) us → Forms lead (.closing ss) vs →
      Forms lead (.closing (s :: ss)) (us ++ vs)

inductive Names : List String → List Word → Prop where
  | one {w : Word} : w.1 = .identifier → Names [String.ofList w.2] [w]
  | more {ns : List String} {w x : Word} {us : List Word} :
      w.1 = .identifier → x.1 = .comma → Names ns us →
      Names (String.ofList w.2 :: ns) (w :: x :: us)

inductive Parameters : List String → List Word → Prop where
  | nothing : Parameters [] []
  | names {ns : List String} {us : List Word} : Names ns us → Parameters ns us

/-- **Functions.** A main block is a function named `main`. -/
inductive Declares (lead : List (Kind × String)) : Function → List Word → Prop where
  | function {ns : List String} {ss : List Stmt} {w name l r : Word} {us vs : List Word} :
      w.1 = .funcWord → name.1 = .identifier → l.1 = .leftParen → Parameters ns us →
      r.1 = .rightParen → Forms lead (.block ss) vs →
      Declares lead ⟨String.ofList name.2, ns, .block ss⟩ (w :: name :: l :: (us ++ r :: vs))
  | mainBlock {ss : List Stmt} {w : Word} {us : List Word} :
      w.1 = .mainWord → Forms lead (.block ss) us → Declares lead ⟨"main", [], .block ss⟩ (w :: us)

/-- **Programs:** one function or more. -/
inductive Composes (lead : List (Kind × String)) : List Function → List Word → Prop where
  | one {f : Function} {us : List Word} : Declares lead f us → Composes lead [f] us
  | more {f : Function} {fs : List Function} {us vs : List Word} :
      Declares lead f us → Composes lead fs vs → Composes lead (f :: fs) (us ++ vs)

/-- **The text is derived by the grammar,** with these functions: its pieces are the ones given, and their
words make up the functions. -/
structure Derivation (lead : List (Kind × String)) (source : String) (ps : List Piece)
    (fs : List Function) : Prop where
  joined : joined ps = source.toList
  lexed : Lexed lead ps
  composes : Composes lead fs (words ps)

/-! ## What follows a division sign -/

/-- The words can stand behind a slash: there are some, and neither a slash nor a star comes first. -/
def FollowsSlash (ws : List Word) : Prop := ∃ w ∈ ws.head?, w.1 ≠ .slash ∧ w.1 ≠ .star

def SlashesApart : List Word → Prop
  | [] => True
  | w :: ws => (w.1 = .slash → FollowsSlash ws) ∧ SlashesApart ws

theorem followsSlash_cons {w : Word} {ws : List Word} {k : Kind} (hw : w.1 = k)
    (hslash : k ≠ .slash) (hstar : k ≠ .star) : FollowsSlash (w :: ws) :=
  ⟨w, rfl, hw ▸ hslash, hw ▸ hstar⟩

theorem FollowsSlash.append {us : List Word} (h : FollowsSlash us) (vs : List Word) :
    FollowsSlash (us ++ vs) := by
  obtain ⟨w, hw, hne⟩ := h
  refine ⟨w, ?_, hne⟩
  rw [List.head?_append, Option.mem_def.1 hw]
  rfl

theorem slashesApart_cons {w : Word} {ws : List Word} {k : Kind} (hw : w.1 = k)
    (hslash : k ≠ .slash) (h : SlashesApart ws) : SlashesApart (w :: ws) :=
  ⟨fun hw' => absurd (hw.symm.trans hw') hslash, h⟩

theorem SlashesApart.append {us vs : List Word} (hus : SlashesApart us) (hvs : SlashesApart vs) :
    SlashesApart (us ++ vs) := by
  induction us with
  | nil => exact hvs
  | cons w us ih => exact ⟨fun hw => (hus.1 hw).append vs, ih hus.2⟩

theorem sign_ne {kind : Kind} {op : UnaryOp} (h : PrefixOperator kind op) :
    kind ≠ .slash ∧ kind ≠ .star := by
  cases h <;> decide

theorem Derives.followsSlash {ph : Phrase} {us : List Word} (h : Derives ph us) :
    FollowsSlash us := by
  induction h with
  | signed _ ih | tighter _ _ ih | applied _ ih | primary _ ih | one _ ih => exact ih
  | operator _ _ _ ih _ | callNothing _ _ _ ih | call _ _ _ _ ih _ | field _ _ _ ih
  | more _ _ _ ih _ => exact ih.append _
  | sign hop _ _ => exact followsSlash_cons rfl (sign_ne hop).1 (sign_ne hop).2
  | whole | decimal => exact followsSlash_cons (k := .number) rfl (by decide) (by decide)
  | text => exact followsSlash_cons (k := .text) rfl (by decide) (by decide)
  | true hw | false hw | name hw | group hw _ _ => exact followsSlash_cons hw (by decide) (by decide)

theorem Derives.slashesApart {ph : Phrase} {us : List Word} (h : Derives ph us) :
    SlashesApart us := by
  induction h with
  | signed _ ih | tighter _ _ ih | applied _ ih | primary _ ih | one _ ih => exact ih
  | operator _ _ hr ihl ihr => exact ihl.append ⟨fun _ => hr.followsSlash, ihr⟩
  | sign hop _ ih => exact slashesApart_cons rfl (sign_ne hop).1 ih
  | callNothing _ hw hx ih | field _ hw hx ih =>
    exact ih.append (slashesApart_cons hw (by decide) (slashesApart_cons hx (by decide) trivial))
  | call _ hw _ hx ih ihes =>
    exact ih.append (slashesApart_cons hw (by decide)
      (ihes.append (slashesApart_cons hx (by decide) trivial)))
  | whole | decimal => exact slashesApart_cons (k := .number) rfl (by decide) trivial
  | text => exact slashesApart_cons (k := .text) rfl (by decide) trivial
  | true hw | false hw | name hw => exact slashesApart_cons hw (by decide) trivial
  | group hw _ hx ih =>
    exact slashesApart_cons hw (by decide) (ih.append (slashesApart_cons hx (by decide) trivial))
  | more _ hw _ ih ihes => exact ih.append (slashesApart_cons hw (by decide) ihes)

theorem Source.slashesApart {us : List Word} (h : Source e us) : SlashesApart us := by
  cases h with
  | value he => exact he.slashesApart
  | range hf hw hl => exact hf.slashesApart.append (slashesApart_cons hw (by decide) hl.slashesApart)

theorem Forms.slashesApart {part : Part} {us : List Word} (h : Forms [] part us) :
    SlashesApart us := by
  induction h with
  | letVar hw hn hq he hs =>
    exact slashesApart_cons hw (by decide) (slashesApart_cons hn (by decide)
      (slashesApart_cons hq (by decide)
        (he.slashesApart.append (slashesApart_cons hs (by decide) trivial))))
  | assign hws hn hq he hs =>
    obtain rfl := List.map_eq_nil_iff.1 hws
    exact slashesApart_cons hn (by decide) (slashesApart_cons hq (by decide)
      (he.slashesApart.append (slashesApart_cons hs (by decide) trivial)))
  | returnNothing hw hs => exact slashesApart_cons hw (by decide) (slashesApart_cons hs (by decide) trivial)
  | returnValue hw he hs =>
    exact slashesApart_cons hw (by decide)
      (he.slashesApart.append (slashesApart_cons hs (by decide) trivial))
  | cond hw he _ _ ihb iho =>
    exact slashesApart_cons hw (by decide) (he.slashesApart.append (ihb.append iho))
  | forEach hw hn hi he _ ihb =>
    exact slashesApart_cons hw (by decide) (slashesApart_cons hn (by decide)
      (slashesApart_cons hi (by decide) (he.slashesApart.append ihb)))
  | expr he hs => exact he.slashesApart.append (slashesApart_cons hs (by decide) trivial)
  | nothing => trivial
  | elseBlock hw _ ih | block hw _ ih => exact slashesApart_cons hw (by decide) ih
  | close hw => exact slashesApart_cons hw (by decide) trivial
  | cons _ _ ihs ihss => exact ihs.append ihss

theorem Names.slashesApart {ns : List String} {us : List Word} (h : Names ns us) :
    SlashesApart us := by
  induction h with
  | one hw => exact slashesApart_cons hw (by decide) trivial
  | more hw hx _ ih => exact slashesApart_cons hw (by decide) (slashesApart_cons hx (by decide) ih)

theorem Declares.slashesApart {f : Function} {us : List Word} (h : Declares [] f us) :
    SlashesApart us := by
  cases h with
  | function hw hn hl hp hr hb =>
    have hparameters : ∀ {ns us}, Parameters ns us → SlashesApart us := by
      rintro _ _ (_ | hns)
      · trivial
      · exact hns.slashesApart
    exact slashesApart_cons hw (by decide) (slashesApart_cons hn (by decide)
      (slashesApart_cons hl (by decide)
        ((hparameters hp).append (slashesApart_cons hr (by decide) hb.slashesApart))))
  | mainBlock hw hb => exact slashesApart_cons hw (by decide) hb.slashesApart

/-- **In a program nothing that follows a slash makes a comment of it.** -/
theorem Composes.slashesApart {fs : List Function} {us : List Word} (h : Composes [] fs us) :
    SlashesApart us := by
  induction h with
  | one hf => exact hf.slashesApart
  | more hf _ ih => exact hf.slashesApart.append ih

end ScriptWorkbench.Reference
