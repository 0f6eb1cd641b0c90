/-
Programs listed as tokens, and read back.

A program is listed in one fixed way: first its loose statements, then its classes, then its functions, and
the end of the input. Every compound part of an expression stands in parentheses. **The main result is that
the parser undoes the listing.** Nothing about the parser is opened here: it is enough that the listing of
each part is derived by the grammar.
-/
import ScriptWorkbench.Proofs.Coverage
import ScriptWorkbench.Proofs.Numerals

namespace ScriptWorkbench.Listing

open Ast Token Grammar ScriptWorkbench.Parser List

variable {us : List Token} {e : Expr}

/-! ## Listing -/

def spelling (kind : Kind) : String :=
  match keywords.find? (·.2 == kind) with
  | some (text, _) => text
  | none =>
    match symbols.find? (·.2 == kind) with
    | some (c, _) => String.ofList [c]
    | none =>
      match doubleSymbols.find? (·.2 == kind) with
      | some ((c, d), _) => String.ofList [c, d]
      | none => ""

def mark (kind : Kind) : Token := ⟨kind, spelling kind, .start⟩

def word (name : String) : Token := ⟨wordKind name, name, .start⟩

def literalToken : Literal → Token
  | .int n => ⟨.number, toString n, .start⟩
  | .real x => ⟨.number, Number.Format.plain.write x, .start⟩
  | .text s => ⟨.text, s, .start⟩
  | .truth true => mark .trueWord
  | .truth false => mark .falseWord

def operatorKind : BinaryOp → Kind
  | .or => .orWord
  | .and => .andWord
  | .equal => .equalEqual
  | .notEqual => .bangEqual
  | .less => .less
  | .lessEqual => .lessEqual
  | .greater => .greater
  | .greaterEqual => .greaterEqual
  | .add => .plus
  | .subtract => .minus
  | .multiply => .star
  | .divide => .slash
  | .other text => .other text

def signKind : UnaryOp → Kind
  | .not => .notWord
  | .negate => .minus

def isCompound : Expr → Bool
  | .literal _ | .name _ | .this => false
  | _ => true

def grouped (e : Expr) (us : List Token) : List Token :=
  if isCompound e then mark .leftParen :: (us ++ [mark .rightParen]) else us

def separated : List (List Token) → List Token
  | [] => []
  | [us] => us
  | us :: vs :: rest => us ++ mark .comma :: separated (vs :: rest)

mutual

def exprTokens : Expr → List Token
  | .literal v => [literalToken v]
  | .name x => [word x]
  | .this => [mark .thisWord]
  | .attribute e x => grouped e (exprTokens e) ++ [mark .dot, word x]
  | .unary op e => mark (signKind op) :: grouped e (exprTokens e)
  | .binary l op r => grouped l (exprTokens l) ++ mark (operatorKind op) :: grouped r (exprTokens r)
  | .range first last => grouped first (exprTokens first) ++ mark .dotDot :: grouped last (exprTokens last)
  | .list es => mark .leftBracket :: (separated (itemTokens es) ++ [mark .rightBracket])
  | .index e i =>
    grouped e (exprTokens e) ++ mark .leftBracket :: (grouped i (exprTokens i) ++ [mark .rightBracket])
  | .call e es =>
    grouped e (exprTokens e) ++ mark .leftParen :: (separated (itemTokens es) ++ [mark .rightParen])
  | .foreign _ => []

def itemTokens : List Expr → List (List Token)
  | [] => []
  | e :: es => grouped e (exprTokens e) :: itemTokens es

end

def caughtTokens : Option String → List Token
  | none => []
  | some x => [word x]

mutual

def stmtTokens : Stmt → List Token
  | .letVar x e => mark .letWord :: word x :: mark .equal :: (exprTokens e ++ [mark .semicolon])
  | .assign x e => word x :: mark .equal :: (exprTokens e ++ [mark .semicolon])
  | .result none => [mark .returnWord, mark .semicolon]
  | .result (some e) => mark .returnWord :: (exprTokens e ++ [mark .semicolon])
  | .expr e => exprTokens e ++ [mark .semicolon]
  | .cond e b none => mark .ifWord :: (exprTokens e ++ (bodyTokens b ++ []))
  | .cond e b (some c) => mark .ifWord :: (exprTokens e ++ (bodyTokens b ++ mark .elseWord :: bodyTokens c))
  | .forEach x e b => mark .forWord :: word x :: mark .inWord :: (exprTokens e ++ bodyTokens b)
  | .loop e b => mark .whileWord :: (exprTokens e ++ bodyTokens b)
  | .guarded b x c => mark .tryWord :: (bodyTokens b ++ mark .catchWord :: (caughtTokens x ++ bodyTokens c))
  | .importModule _ | .function .. | .foreign => []

/-- The tokens of a block; a single statement only follows an `else`, and an `if` announces it. -/
def bodyTokens : Body → List Token
  | .block ss => mark .leftBrace :: closingTokens ss
  | .single s => mark .ifWord :: stmtTokens s
  | .foreign _ => []

def closingTokens : List Stmt → List Token
  | [] => [mark .rightBrace]
  | s :: ss => stmtTokens s ++ closingTokens ss

end

def functionTokens (f : Function) : List Token :=
  if f.name = "main" then mark .mainWord :: bodyTokens f.body
  else
    mark .funcWord :: word f.name :: mark .leftParen ::
      (separated (f.parameters.map fun x => [word x]) ++ mark .rightParen :: bodyTokens f.body)

def parentTokens : Option String → List Token
  | none => []
  | some x => [mark .extendsWord, word x]

def classTokens (c : ClassDecl) : List Token :=
  mark .classWord :: word c.name :: (parentTokens c.superclass ++ bodyTokens c.body)

/-- **The listing of a program.** -/
def listing (p : Program) : List Token :=
  (p.statements.map stmtTokens).flatten ++ (p.classes.map classTokens).flatten ++
    (p.functions.map functionTokens).flatten ++ [⟨.endOfInput, "", .start⟩]

/-! ## Which programs have a listing -/

def IsName (x : String) : Prop := wordKind x = .identifier

/-- Literals that a token can stand for: texts, truth values and whole numbers that are not negative
and have no more digits than can be read. -/
inductive PrintableLiteral : Literal → Prop where
  | int {n : Nat} : (toString n).length ≤ Number.maxDigits → PrintableLiteral (.int n)
  | text {s : String} : PrintableLiteral (.text s)
  | truth {b : Bool} : PrintableLiteral (.truth b)

/-- Expressions of the source language. -/
inductive Printable : Expr → Prop where
  | literal {v : Literal} : PrintableLiteral v → Printable (.literal v)
  | name {x : String} : IsName x → Printable (.name x)
  | this : Printable .this
  | field {e : Expr} {x : String} : Printable e → IsName x → Printable (.attribute e x)
  | unary {op : UnaryOp} {e : Expr} : Printable e → Printable (.unary op e)
  | binary {l r : Expr} {op : BinaryOp} :
      Printable l → (∀ text, op ≠ .other text) → Printable r → Printable (.binary l op r)
  | list {es : List Expr} : (∀ e ∈ es, Printable e) → Printable (.list es)
  | index {e i : Expr} : Printable e → Printable i → Printable (.index e i)
  | call {e : Expr} {es : List Expr} : Printable e → (∀ e ∈ es, Printable e) → Printable (.call e es)

inductive PrintableSource : Expr → Prop where
  | value {e : Expr} : Printable e → PrintableSource e
  | range {first last : Expr} : Printable first → Printable last → PrintableSource (.range first last)

inductive PrintableStmt : Stmt → Prop where
  | letVar {x : String} {e : Expr} : IsName x → Printable e → PrintableStmt (.letVar x e)
  | assign {x : String} {e : Expr} : IsName x → Printable e → PrintableStmt (.assign x e)
  | returnNothing : PrintableStmt (.result none)
  | returnValue {e : Expr} : Printable e → PrintableStmt (.result (some e))
  | expr {e : Expr} : Printable e → PrintableStmt (.expr e)
  | cond {e : Expr} {ss : List Stmt} :
      Printable e → (∀ s ∈ ss, PrintableStmt s) → PrintableStmt (.cond e (.block ss) none)
  | condElse {e : Expr} {ss ss' : List Stmt} :
      Printable e → (∀ s ∈ ss, PrintableStmt s) → (∀ s ∈ ss', PrintableStmt s) →
      PrintableStmt (.cond e (.block ss) (some (.block ss')))
  | condElseIf {e : Expr} {ss : List Stmt} {s : Stmt} :
      Printable e → (∀ s ∈ ss, PrintableStmt s) → PrintableStmt s →
      PrintableStmt (.cond e (.block ss) (some (.single s)))
  | forEach {x : String} {e : Expr} {ss : List Stmt} :
      IsName x → PrintableSource e → (∀ s ∈ ss, PrintableStmt s) →
      PrintableStmt (.forEach x e (.block ss))
  | loop {e : Expr} {ss : List Stmt} :
      Printable e → (∀ s ∈ ss, PrintableStmt s) → PrintableStmt (.loop e (.block ss))
  | guarded {x : Option String} {ss ss' : List Stmt} :
      (∀ s ∈ ss, PrintableStmt s) → (∀ y ∈ x, IsName y) → (∀ s ∈ ss', PrintableStmt s) →
      PrintableStmt (.guarded (.block ss) x (.block ss'))

def PrintableBody (b : Body) : Prop := ∃ ss, b = .block ss ∧ ∀ s ∈ ss, PrintableStmt s

/-- A program of the source language. A function named `main` is a main block, which has no
parameters. -/
structure PrintableProgram (p : Program) : Prop where
  statements : ∀ s ∈ p.statements, PrintableStmt s
  classes : ∀ c ∈ p.classes, IsName c.name ∧ (∀ y ∈ c.superclass, IsName y) ∧ PrintableBody c.body
  functions : ∀ f ∈ p.functions,
    (f.name = "main" ∧ f.parameters = [] ∨ IsName f.name ∧ ∀ x ∈ f.parameters, IsName x) ∧
      PrintableBody f.body

/-! ## Numbers -/

theorem numberLiteral_toString {n : Nat} (hlen : (toString n).length ≤ Number.maxDigits) :
    numberLiteral (toString n) = .ok (.int n) := by
  have hdigits := Number.isDigit_toDigits n
  have hpoint : (toString n).toList.contains '.' = false := by
    rw [Nat.toString_eq_ofList_toDigits, String.toList_ofList, contains_eq_mem, decide_eq_false_iff_not]
    intro hmem
    exact absurd (hdigits _ hmem) (by decide)
  rw [numberLiteral, hpoint]
  rw [Nat.toString_eq_ofList_toDigits] at hlen ⊢
  match hds : Nat.toDigits 10 n with
  | [] => exact absurd hds Nat.toDigits_ne_nil
  | c :: ds =>
    rw [hds] at hdigits hlen
    rw [String.length_ofList] at hlen
    rw [Number.readInt_ofList hdigits hlen, ← hds, Number.digitsValue_toDigits]
    rfl

/-! ## Every listing is derived -/

theorem word_kind {x : String} (h : IsName x) : (word x).kind = .identifier := h

theorem operator_operatorKind {op : BinaryOp} (h : ∀ text, op ≠ .other text) :
    ∃ k, Operator k (operatorKind op) op := by
  cases op with
  | other text => exact absurd rfl (h text)
  | _ => exact ⟨_, by constructor⟩

theorem prefixOperator_signKind (op : UnaryOp) : PrefixOperator (signKind op) op := by
  cases op <;> constructor

theorem Derives.loosen {j k : Nat} (h : Derives (.level k e) us) (hk : k ≤ tightest) (hjk : j ≤ k) :
    Derives (.level j e) us := by
  obtain ⟨d, rfl⟩ := Nat.exists_eq_add_of_le hjk
  induction d generalizing j with
  | zero => exact h
  | succ d ih =>
    refine .tighter (by omega) (ih ?_ (by omega) (by omega))
    rwa [Nat.succ_add_eq_add_succ]

theorem derives_literalToken {v : Literal} (h : PrintableLiteral v) :
    Derives (.primary (.literal v)) [literalToken v] := by
  cases h with
  | int hlen => exact .number rfl (numberLiteral_toString hlen)
  | @text s => exact .text (t := ⟨.text, s, .start⟩) rfl
  | @truth b =>
    cases b with
    | false => exact .false rfl
    | true => exact .true rfl

def Fits (e : Expr) (us : List Token) : Prop := Expression e us ∧ Derives (.primary e) (grouped e us)

theorem fits_of_compound (he : isCompound e = true) (h : Expression e us) : Fits e us := by
  refine ⟨h, ?_⟩
  rw [grouped, if_pos he]
  exact .group rfl h rfl

theorem fits_of_primary (he : isCompound e = false) (h : Derives (.primary e) us) : Fits e us := by
  refine ⟨derives_level_of_primary (Nat.zero_le _) h, ?_⟩
  rw [grouped, he]
  exact h

theorem expression_of_applied (h : Derives (.applied e) us) :
    Expression e us :=
  derives_level_of_signed (Nat.zero_le _) (.applied h)

theorem derives_items {es : List Expr} (h : ∀ e' ∈ e :: es, Fits e' (exprTokens e')) :
    Derives (.items (e :: es)) (separated (itemTokens (e :: es))) := by
  have he : Expression e (grouped e (exprTokens e)) :=
    derives_level_of_primary (Nat.zero_le _) (h e mem_cons_self).2
  induction es generalizing e with
  | nil => exact .one he
  | cons e' es ih =>
    have hes : ∀ x ∈ e' :: es, Fits x (exprTokens x) := fun x hx => h x (mem_cons_of_mem e hx)
    exact .more he rfl (ih hes (derives_level_of_primary (Nat.zero_le _) (hes e' mem_cons_self).2))

/-- **The listing of an expression derives it.** -/
theorem fits_exprTokens (h : Printable e) : Fits e (exprTokens e) := by
  induction h with
  | literal hv => exact fits_of_primary rfl (derives_literalToken hv)
  | name hx => exact fits_of_primary rfl (.name (word_kind hx))
  | this => exact fits_of_primary rfl (.this rfl)
  | field _ hx ih =>
    exact fits_of_compound rfl (expression_of_applied (.field (.primary ih.2) rfl (word_kind hx)))
  | @unary op e _ ih =>
    exact fits_of_compound rfl (derives_level_of_signed (Nat.zero_le _)
      (.sign (prefixOperator_signKind op) (.applied (.primary ih.2))))
  | @binary l r op _ hop _ ihl ihr =>
    -- Both operands are primaries in the listing, so the level of the operator does not matter.
    obtain ⟨k, hk⟩ := operator_operatorKind hop
    have hlt := hk.lt_tightest
    have hbinary : Derives (.level k (.binary l op r)) (exprTokens (.binary l op r)) := by
      exact .operator (derives_level_of_primary (Nat.le_of_lt hlt) ihl.2) hk
        (derives_level_of_primary hlt ihr.2)
    exact fits_of_compound rfl (Derives.loosen hbinary (Nat.le_of_lt hlt) (Nat.zero_le k))
  | @list es _ ih =>
    refine fits_of_compound rfl (derives_level_of_primary (Nat.zero_le _) ?_)
    match es with
    | [] => exact .listNothing rfl rfl
    | e :: es => exact .list rfl (derives_items ih) rfl
  | index _ _ ih ihi =>
    exact fits_of_compound rfl (expression_of_applied (.index (.primary ih.2) rfl
      (derives_level_of_primary (Nat.zero_le _) ihi.2) rfl))
  | @call e es _ _ ih ihes =>
    refine fits_of_compound rfl (expression_of_applied ?_)
    match es with
    | [] => exact .callNothing (.primary ih.2) rfl rfl
    | e' :: es => exact .call (.primary ih.2) rfl (derives_items ihes) rfl

theorem source_exprTokens (h : PrintableSource e) : Source e (exprTokens e) := by
  cases h with
  | value he => exact .value (fits_exprTokens he).1
  | range hfirst hlast =>
    exact .range (derives_level_of_primary (Nat.zero_le _) (fits_exprTokens hfirst).2) rfl
      (derives_level_of_primary (Nat.zero_le _) (fits_exprTokens hlast).2)

theorem block_of_statements {ss : List Stmt} (h : ∀ s ∈ ss, Statement s (stmtTokens s)) :
    Block ss (bodyTokens (.block ss)) := by
  have hclosing : Forms (.closing ss) (closingTokens ss) := by
    induction ss with
    | nil => exact .close rfl
    | cons s ss ih => exact .cons (h s mem_cons_self) (ih fun x hx => h x (mem_cons_of_mem s hx))
  exact .block rfl hclosing

theorem caught_caughtTokens {x : Option String} (h : ∀ y ∈ x, IsName y) :
    Caught x (caughtTokens x) := by
  match x with
  | none => exact .nothing
  | some y => exact .error (word_kind (h y rfl))

/-- **The listing of a statement forms it.** -/
theorem statement_stmtTokens {s : Stmt} (h : PrintableStmt s) : Statement s (stmtTokens s) := by
  induction h with
  | letVar hx he => exact .letVar rfl (word_kind hx) rfl (fits_exprTokens he).1 rfl
  | assign hx he => exact .assign (word_kind hx) rfl (fits_exprTokens he).1 rfl
  | returnNothing => exact .returnNothing rfl rfl
  | returnValue he => exact .returnValue rfl (fits_exprTokens he).1 rfl
  | expr he => exact .expr (fits_exprTokens he).1 rfl
  | cond he _ ih => exact .cond rfl (fits_exprTokens he).1 (block_of_statements ih) .nothing
  | condElse he _ _ ih ih' =>
    exact .cond rfl (fits_exprTokens he).1 (block_of_statements ih)
      (.elseBlock rfl (block_of_statements ih'))
  | condElseIf he _ _ ih ih' =>
    exact .cond rfl (fits_exprTokens he).1 (block_of_statements ih) (.elseIf rfl rfl ih')
  | forEach hx he _ ih =>
    exact .forEach rfl (word_kind hx) rfl (source_exprTokens he) (block_of_statements ih)
  | loop he _ ih => exact .loop rfl (fits_exprTokens he).1 (block_of_statements ih)
  | guarded _ hx _ ih ih' =>
    exact .guarded rfl (block_of_statements ih) rfl (caught_caughtTokens hx) (block_of_statements ih')

theorem parameters_separated {ns : List String} (h : ∀ x ∈ ns, IsName x) :
    Parameters ns (separated (ns.map fun x => [word x])) := by
  match ns with
  | [] => exact .nothing
  | n :: ns =>
    refine .names ?_
    induction ns generalizing n with
    | nil => exact .one (word_kind (h n mem_cons_self))
    | cons m ns ih =>
      exact .more (word_kind (h n mem_cons_self)) rfl
        (ih m fun x hx => h x (mem_cons_of_mem n hx))

theorem makes_functionTokens {f : Function}
    (hname : f.name = "main" ∧ f.parameters = [] ∨ IsName f.name ∧ ∀ x ∈ f.parameters, IsName x)
    (hbody : PrintableBody f.body) : Makes (.function f) (functionTokens f) := by
  obtain ⟨name, parameters, body⟩ := f
  obtain ⟨ss, rfl, hss⟩ := hbody
  have hblock := block_of_statements fun s hs => statement_stmtTokens (hss s hs)
  obtain ⟨rfl, rfl⟩ | ⟨hname, hparameters⟩ := hname
  · exact .mainBlock rfl hblock
  · have hne : name ≠ "main" := by
      rintro rfl
      exact absurd (show wordKind "main" = .identifier from hname) (by decide)
    rw [functionTokens, if_neg hne]
    exact .function rfl (word_kind hname) rfl (parameters_separated hparameters) rfl hblock

theorem makes_classTokens {c : ClassDecl} (hname : IsName c.name)
    (hparent : ∀ y ∈ c.superclass, IsName y) (hbody : PrintableBody c.body) :
    Makes (.declaration c) (classTokens c) := by
  obtain ⟨name, parent, body⟩ := c
  obtain ⟨ss, rfl, hss⟩ := hbody
  have hparent : Parent parent (parentTokens parent) := by
    match parent with
    | none => exact .nothing
    | some y => exact .extending rfl (word_kind (hparent y rfl))
  exact .declaration rfl (word_kind hname) hparent
    (block_of_statements fun s hs => statement_stmtTokens (hss s hs))

/-! ## The program -/

theorem exists_pieces {α : Type} (item : α → Item) (tokens : α → List Token) {l : List α}
    (h : ∀ a ∈ l, Makes (item a) (tokens a)) :
    ∃ pieces : List Piece, Piece.join pieces = (l.map tokens).flatten ∧
      pieces.map Piece.item = l.map item := by
  induction l with
  | nil => exact ⟨[], rfl, rfl⟩
  | cons a l ih =>
    obtain ⟨pieces, hjoin, hitems⟩ := ih fun x hx => h x (mem_cons_of_mem a hx)
    refine ⟨⟨item a, tokens a, h a mem_cons_self⟩ :: pieces, ?_, ?_⟩
    · rw [Piece.join] at hjoin ⊢
      rw [map_cons, map_cons, flatten_cons, flatten_cons, hjoin]
    · rw [map_cons, map_cons, hitems]

theorem foldr_addTo {α : Type} (item : α → Item) (add : List α → Program → Program) (l : List α)
    (p : Program) (hnil : add [] p = p)
    (hcons : ∀ a l, (item a).addTo (add l p) = add (a :: l) p) :
    (l.map item).foldr (fun item p => item.addTo p) p = add l p := by
  induction l with
  | nil => exact hnil.symm
  | cons a l ih => rw [map_cons, foldr_cons, ih, hcons]

theorem assemble_items (p : Program) :
    assemble (p.statements.map Item.statement ++ p.classes.map Item.declaration ++
      p.functions.map Item.function) = p := by
  rw [assemble, foldr_append, foldr_append,
    foldr_addTo .function (fun fs p => { p with functions := fs ++ p.functions }) _ _ rfl fun _ _ => rfl,
    foldr_addTo .declaration (fun cs p => { p with classes := cs ++ p.classes }) _ _ rfl fun _ _ => rfl,
    foldr_addTo .statement (fun ss p => { p with statements := ss ++ p.statements }) _ _ rfl fun _ _ => rfl]
  simp only [append_nil]

/-- **Parsing undoes listing.** -/
theorem parse_listing (p : Program) (hp : PrintableProgram p) : parse (listing p) = .ok p := by
  obtain ⟨ss, hss, hssItems⟩ := exists_pieces .statement stmtTokens fun s hs =>
    .statement (statement_stmtTokens (hp.statements s hs))
  obtain ⟨cs, hcs, hcsItems⟩ := exists_pieces .declaration classTokens fun c hc =>
    makes_classTokens (hp.classes c hc).1 (hp.classes c hc).2.1 (hp.classes c hc).2.2
  obtain ⟨fs, hfs, hfsItems⟩ := exists_pieces .function functionTokens fun f hf =>
    makes_functionTokens (hp.functions f hf).1 (hp.functions f hf).2
  have hcovers : Covers p ((p.statements.map stmtTokens).flatten ++
      (p.classes.map classTokens).flatten ++ (p.functions.map functionTokens).flatten) := by
    refine ⟨ss ++ cs ++ fs, [], ?_, ?_, .inl rfl⟩
    · rw [← hss, ← hcs, ← hfs]
      simp [Piece.join]
    · rw [Piece.program, List.map_append, List.map_append, hssItems, hcsItems, hfsItems, assemble_items]
  rw [parse, listing]
  exact topLevel_of_covers hcovers rfl (by rw [budget]; omega)

/-- A loop over a range in a main block, a method that tests a negated call, and a statement with an
`else if` and a handler for errors. -/
def countdown : Program where
  statements :=
    [.cond (.name "ready") (.block [.expr (.call (.name "go") [])])
      (some (.single (.guarded (.block [.assign "n" (.list [.literal (.int 12), .this])]) (some "e")
        (.block []))))]
  classes :=
    [⟨"Clock", some "Base", .block
      [.loop (.unary .not (.call (.attribute .this "done") [.literal (.text "now")])) (.block
        [.result none])]⟩]
  functions :=
    [⟨"main", [], .block
      [.forEach "i" (.range (.literal (.int 0)) (.binary (.name "n") .subtract (.name "k")))
        (.block [.letVar "x" (.index (.name "xs") (.unary .negate (.name "i")))])]⟩,
     ⟨"later", ["a", "b"], .block [.result (some (.literal (.truth true)))]⟩]

theorem printable_countdown : PrintableProgram countdown := by
  have hname {x : String} (h : wordKind x = .identifier) : IsName x := h
  refine ⟨?_, ?_, ?_⟩
  · simp only [countdown, forall_mem_singleton]
    refine .condElseIf (.name (hname (by decide))) ?_ (.guarded ?_ ?_ (by simp))
    · simp only [forall_mem_singleton]
      exact .expr (.call (.name (hname (by decide))) (by simp))
    · simp only [forall_mem_singleton]
      refine .assign (hname (by decide)) (.list ?_)
      simp only [forall_mem_cons]
      exact ⟨.literal (.int (n := 12) (by decide)), .this, by simp⟩
    · rintro y ⟨⟩
      exact hname (by decide)
  · simp only [countdown, forall_mem_singleton]
    refine ⟨hname (by decide), ?_, _, rfl, ?_⟩
    · rintro y ⟨⟩
      exact hname (by decide)
    · simp only [forall_mem_singleton]
      refine .loop (.unary (.call (.field .this (hname (by decide))) ?_)) ?_
      · simp only [forall_mem_singleton]
        exact .literal .text
      · simp only [forall_mem_singleton]
        exact .returnNothing
  · simp only [countdown, forall_mem_cons]
    refine ⟨⟨.inl (by simp), _, rfl, ?_⟩, ⟨.inr ⟨hname (by decide), ?_⟩, _, rfl, ?_⟩, by simp⟩
    · simp only [forall_mem_singleton]
      refine .forEach (hname (by decide)) (.range (.literal (.int (n := 0) (by decide)))
        (.binary (.name (hname (by decide))) (by simp) (.name (hname (by decide))))) ?_
      simp only [forall_mem_singleton]
      exact .letVar (hname (by decide)) (.index (.name (hname (by decide)))
        (.unary (.name (hname (by decide)))))
    · exact ⟨hname (by decide), hname (by decide), by simp⟩
    · simp only [forall_mem_singleton]
      exact .returnValue (.literal .truth)

theorem parse_listing_countdown :
    PrintableProgram countdown ∧ parse (listing countdown) = .ok countdown :=
  ⟨printable_countdown, parse_listing countdown printable_countdown⟩

end ScriptWorkbench.Listing
