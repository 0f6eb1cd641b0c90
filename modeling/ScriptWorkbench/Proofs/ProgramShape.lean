/-
The parts of a generated program (`compile_file_shape`).

Three things have to be argued. The emitter looks for `gfx` in the values of all tokens at once, joined by
blanks; a phrase without a blank lies within one of them. It looks for a function of the name `main`; the word
is no identifier, so that only a main block makes one. And no part begins or ends with a blank, which for the
body rests on its first line.
-/
import ScriptWorkbench.Proofs.Nesting
import ScriptWorkbench.Proofs.PrintedTokens
import ScriptWorkbench.Proofs.SourceSlices

namespace ScriptWorkbench

open List

namespace Text

/-! ## Phrases in a join -/

theorem infix_append_cons_iff {p xs ys : List Char} {c : Char} (hc : c ∉ p) :
    p <:+: xs ++ c :: ys ↔ p <:+: xs ∨ p <:+: ys := by
  rw [infix_append_iff]
  constructor
  · rintro (hxs | hys | ⟨l₁, l₂, rfl, hsuffix, hprefix⟩)
    · exact .inl hxs
    · obtain hprefix | hys := infix_cons_iff.1 hys
      · obtain rfl | ⟨t, rfl, -⟩ := prefix_cons_iff.1 hprefix
        · exact .inl nil_infix
        · exact absurd mem_cons_self hc
      · exact .inr hys
    · obtain rfl | ⟨t, rfl, -⟩ := prefix_cons_iff.1 hprefix
      · exact .inl (by simpa using hsuffix.isInfix)
      · exact absurd (mem_append_right l₁ mem_cons_self) hc
  · rintro (hxs | hys)
    · exact .inl hxs
    · exact .inr (.inl (infix_cons_iff.2 (.inr hys)))

theorem occursIn_intercalate {p : String} (hne : p ≠ "") (hblank : ' ' ∉ p.toList) (parts : List String) :
    occursIn p (" ".intercalate parts) = parts.any (occursIn p) := by
  induction parts with
  | nil =>
    refine Bool.eq_false_iff.2 fun h => hne ?_
    rw [occursIn, isSome_indexOf?_iff] at h
    exact String.toList_eq_nil_iff.1 (infix_nil.1 h)
  | cons part parts ih =>
    cases parts with
    | nil => rw [String.intercalate_singleton, any_cons, any_nil, Bool.or_false]
    | cons next parts =>
      rw [any_cons, ← ih, String.intercalate_cons_cons, Bool.eq_iff_iff, Bool.or_eq_true]
      simp only [occursIn, isSome_indexOf?_iff, String.toList_append, append_assoc]
      exact infix_append_cons_iff hblank

theorem StartsVisibly.trimEnd {s : String} (h : StartsVisibly s) : StartsVisibly (trimEnd s) := by
  obtain ⟨c, cs, hcs, hc⟩ := h.toList_eq
  have hlast : [c].dropWhile isBlank = [c] := dropWhile_cons_of_neg (by rw [hc]; decide)
  have hkeeps : ∃ ds, (c :: cs).reverse.dropWhile isBlank = ds ++ [c] := by
    rw [reverse_cons, dropWhile_append, hlast]
    split
    · exact ⟨[], rfl⟩
    · exact ⟨_, rfl⟩
  obtain ⟨ds, hds⟩ := hkeeps
  rw [StartsVisibly, Text.trimEnd, dropEndWhile, String.toList_ofList, hcs, hds, reverse_append]
  exact congrArg some hc

end Text

namespace Grammar

open Ast Token

variable {us : List Token}

/-! ## Main blocks -/

def Piece.isMainBlock (piece : Piece) : Bool := piece.tokens.head?.any (·.kind == .mainWord)

def Item.isMain : Item → Bool
  | .function f => f.name == "main"
  | _ => false

def NoMain (us : List Token) : Prop := ∀ t ∈ us, t.kind = .identifier → t.value ≠ "main"

theorem noMain_of_tiles {cs : List Char} (h : Tiles cs (us.map content)) : NoMain us := by
  intro t ht hkind hmain
  have hend : t.kind ≠ .endOfInput := by rw [hkind]; decide
  obtain ⟨text, rest, hlexeme⟩ := h.exists_lexeme (mem_map_of_mem ht) hend
  obtain ⟨-, -, -, hword⟩ := hlexeme.identifier hkind
  change wordKind t.value = .identifier at hword
  rw [hmain] at hword
  exact absurd hword (by decide)

theorem not_startsStatement_main : ¬Parser.StartsStatement .mainWord := by
  rintro (_ | _ | _ | _ | _ | _ | h)
  obtain h | h := h <;> cases h

/-- **Only a main block makes a function named `main`.** -/
theorem Piece.isMain_item {piece : Piece} (h : NoMain piece.tokens) :
    piece.item.isMain = piece.isMainBlock := by
  obtain ⟨item, us, hmakes⟩ := piece
  rw [Piece.isMainBlock]
  cases hmakes with
  | @function ns ss t name l r us vs ht hname =>
    have hne : (name.value == "main") = false := beq_eq_false_iff_ne.2 (h name (by simp) hname)
    simp [Item.isMain, hne, ht]
  | mainBlock ht | declaration ht => simp [Item.isMain, ht]
  | statement hs =>
    obtain ⟨t, vs, rfl, ht⟩ := Parser.statement_head hs
    have hne : t.kind ≠ .mainWord := fun heq => not_startsStatement_main (heq ▸ ht)
    simp [Item.isMain, hne]

theorem any_main_program {pieces : List Piece} (h : NoMain (Piece.join pieces)) :
    (Piece.program pieces).functions.any (·.name == "main") = pieces.any Piece.isMainBlock := by
  induction pieces with
  | nil => rfl
  | cons piece pieces ih =>
    obtain ⟨hpiece, hrest⟩ := forall_mem_append.1 h
    have haddTo (p : Program) (item : Item) : (item.addTo p).functions.any (·.name == "main") =
        (item.isMain || p.functions.any (·.name == "main")) := by
      cases item <;> rfl
    rw [any_cons, ← ih hrest, ← Piece.isMain_item hpiece]
    exact haddTo (Piece.program pieces) piece.item

end Grammar

namespace Target

open Ast Token Grammar Text

variable {ctx : Context} {p : Program} {lines : List Line} {os : List Outline}

/-! ## The first line of a body -/

def Opens (lines : List Line) : Prop := ∀ l ∈ lines.head?, l.text ≠ ""

theorem Opens.append {lines' : List Line} (h : Opens lines) (h' : Opens lines') :
    Opens (lines ++ lines') := by
  cases lines with
  | nil => exact h'
  | cons l lines => exact h

theorem opens_emitEach {α : Type} {emit : α → Except EmitError (List Line)} {as : List α}
    (hemit : ∀ a ls, emit a = .ok ls → Opens ls) (h : emitEach emit as = .ok lines) : Opens lines := by
  induction as generalizing lines with
  | nil =>
    cases h
    rintro l ⟨⟩
  | cons a as ih =>
    obtain ⟨first, hfirst, h⟩ := bind_eq_ok h
    obtain ⟨others, hothers, h⟩ := bind_eq_ok h
    cases h
    exact (hemit a first hfirst).append (ih hothers)

theorem opens_emitClass (c : ClassDecl) (h : emitClass ctx c = .ok lines) : Opens lines := by
  obtain ⟨body, -, h⟩ := bind_eq_ok h
  cases h
  rintro l ⟨⟩
  rw [classHeader]
  split <;> simp

theorem opens_emitFunction (f : Function)
    (h : (emitFunction ctx f).map (· ++ [⟨0, ""⟩]) = .ok lines) : Opens lines := by
  obtain ⟨lines, hlines, rfl⟩ := map_eq_ok h
  obtain ⟨body, -, hlines⟩ := bind_eq_ok hlines
  cases hlines
  rintro l ⟨⟩
  exact show "@profiler" ≠ "" by decide

theorem opens_programLines (hread : ReadFrom p) (h : programLines ctx .file p = .ok lines) :
    Opens lines := by
  obtain ⟨statements, hstatements, h⟩ := bind_eq_ok h
  obtain ⟨classes, hclasses, h⟩ := bind_eq_ok h
  obtain ⟨functions, hfunctions, h⟩ := bind_eq_ok h
  cases h
  -- the statements are the lines of their nesting, where none is left out
  obtain ⟨os, hos, -, hvisible⟩ := shows_statements hread.statements hstatements
  rw [← Except.ok.inj (hstatements.symm.trans (hos.emits 0)), filter_eq_self] at hvisible
  have hopens : Opens statements := fun l hl => bne_iff_ne.1 (hvisible l (mem_of_mem_head? hl))
  exact (hopens.append (opens_emitEach (fun c _ => opens_emitClass c) hclasses)).append
    (opens_emitEach (fun f _ => opens_emitFunction f) hfunctions)

theorem startsVisibly_bodyText (hopens : Opens lines) (hshows : Shows lines os)
    (hne : bodyText lines ≠ "") : StartsVisibly (bodyText lines) := by
  cases lines with
  | nil => exact absurd rfl hne
  | cons l lines =>
    have htext : l.text ≠ "" := hopens l rfl
    have hsolid : Solid l := by
      obtain rfl | hsolid := hshows.1 l mem_cons_self
      · exact absurd rfl htext
      · exact hsolid
    have hdepth : l.depth = 0 := by
      have hflat := hshows.2
      rw [filter_cons, if_pos (bne_iff_ne.2 htext)] at hflat
      obtain _ | ⟨_ | _, os⟩ := os
      · cases hflat
      · exact congrArg Line.depth (cons.inj hflat).1
      · exact congrArg Line.depth (cons.inj hflat).1
    have hrender : StartsVisibly l.render := by
      rw [StartsVisibly, Line.toList_render, hdepth]
      exact hsolid.1.starts
    refine StartsVisibly.trimEnd ?_
    cases lines with
    | nil => exact hrender
    | cons next lines =>
      rw [map_cons, map_cons, String.intercalate_cons_cons, String.append_assoc]
      exact hrender.append _

/-! ## The parts of a file -/

/-- **The parts of a generated program,** given whether it draws, its body and whether it has a main
block. -/
def fileParts (drawing : Bool) (body : String) (main : Bool) : List String :=
  preamble :: ((if drawing then ["from prisma import pygfx_api as gfx"] else []) ++
    ((if body = "" then [] else [body]) ++
      if main then ["if __name__ == \"__main__\":\n    main()"] else []))

/-- **A text in these parts:** one blank line is between two of them, and one line feed ends the last. -/
structure FileShape (drawing : Bool) (body : String) (main : Bool) (text : String) : Prop where
  text_eq : text = "\n\n".intercalate (fileParts drawing body main) ++ "\n"
  ends : ∀ part ∈ fileParts drawing body main, EndsVisibly part
  starts : ∀ part ∈ (fileParts drawing body main).tail, StartsVisibly part

theorem mentionsDrawing_eq (tokens : List Token) :
    mentionsDrawing tokens = tokens.any fun t => occursIn "gfx" t.value := by
  rw [mentionsDrawing, occursIn_intercalate (by decide) (by decide), any_map]
  rfl

theorem intercalate_split (separator first second : String) (parts : List String) :
    separator.intercalate ((first ++ (separator ++ second)) :: parts) =
      separator.intercalate (first :: second :: parts) := by
  cases parts with
  | nil => simp [String.append_assoc]
  | cons part parts => simp only [String.intercalate_cons_cons, String.append_assoc]

theorem intercalate_filter_parts (tokens : List Token) (body : String) (p : Program) :
    "\n\n".intercalate ([beginning tokens, body, mainGuard p].filter (· != "")) =
      "\n\n".intercalate
        (fileParts (mentionsDrawing tokens) body (p.functions.any (·.name == "main"))) := by
  have hrest : [body, mainGuard p].filter (· != "") = (if body = "" then [] else [body]) ++
      if p.functions.any (·.name == "main") then ["if __name__ == \"__main__\":\n    main()"] else [] := by
    have hguard : ("if __name__ == \"__main__\":\n    main()" != "") = true := by decide
    rw [mainGuard]
    split <;> by_cases hbody : body = "" <;> simp [hbody, hguard]
  rw [filter_cons, if_pos (endsVisibly_beginning tokens).bne_empty, hrest, fileParts, beginning]
  split
  · exact intercalate_split "\n\n" preamble "from prisma import pygfx_api as gfx" _
  · rfl

theorem fileShape_of_parts {drawing main : Bool} {body text : String}
    (htext : text = "\n\n".intercalate (fileParts drawing body main) ++ "\n")
    (hends : body ≠ "" → EndsVisibly body) (hstarts : body ≠ "" → StartsVisibly body) :
    FileShape drawing body main text := by
  have hpreamble : EndsVisibly preamble :=
    endsVisibly_intercalate (cons_ne_nil _ _) ⟨'c', rfl, by decide⟩ "\n"
  -- the parts behind the first, each with the condition that it is there for
  have hcases {part : String} (hpart : part ∈ (fileParts drawing body main).tail) :
      part = "from prisma import pygfx_api as gfx" ∨ (body ≠ "" ∧ part = body) ∨
        part = "if __name__ == \"__main__\":\n    main()" := by
    rw [fileParts, tail_cons, mem_append, mem_append] at hpart
    obtain hpart | hpart | hpart := hpart <;> split at hpart <;>
    all_goals simp_all
  refine ⟨htext, forall_mem_cons.2 ⟨hpreamble, fun part hpart => ?_⟩, fun part hpart => ?_⟩
  · obtain rfl | ⟨hne, rfl⟩ | rfl := hcases hpart
    · exact ⟨'x', rfl, by decide⟩
    · exact hends hne
    · exact ⟨')', rfl, by decide⟩
  · obtain rfl | ⟨hne, rfl⟩ | rfl := hcases hpart
    · rfl
    · exact hstarts hne
    · rfl

end Target

open Ast Token Grammar Target Text

/-- **The shape of a generated program.** Whatever source is compiled to a file, the file has the fixed
functions; the import of the drawing functions if and only if the value of some token has `gfx` in it,
where comments are no tokens; the body, if it is not empty; and the call of the main function if and only
if some piece of the source is a main block, for no other piece makes a function of that name. One blank
line is between two parts, and one line feed ends the last. -/
theorem compile_file_shape (fs : Files) {source text : String}
    (h : compile fs .file source = .ok text) :
    ∃ ts pieces tail eof ctx lines,
      readProgram source = .ok (ts, Piece.program pieces) ∧
      (scan source = .ok ts ∧ Tiles source.toList (ts.map content)) ∧
      (ts = Piece.join pieces ++ tail ++ [eof] ∧ eof.kind = .endOfInput ∧ (tail = [] ∨ BreaksOff tail)) ∧
      (Context.ofFiles fs ts = .ok ctx ∧ programLines ctx .file (Piece.program pieces) = .ok lines) ∧
      FileShape (ts.any fun t => occursIn "gfx" t.value) (bodyText lines)
        (pieces.any Piece.isMainBlock) text ∧
      ∀ piece ∈ pieces, ∀ f, piece.item = .function f → (f.name = "main" ↔ piece.isMainBlock = true) := by
  obtain ⟨ts, p, ctx, hread, hctx, hemit⟩ := compile_eq_ok h
  obtain ⟨us, eof, rfl, heof, pieces, tail, rfl, rfl, htail⟩ := covers_of_readProgram hread
  have hscan := (readProgram_eq_ok hread).1
  have htiles := tiles_of_scanFrom hscan
  have hnames : NoMain (Piece.join pieces) := fun t ht =>
    noMain_of_tiles htiles t (List.mem_append_left _ (List.mem_append_left _ ht))
  obtain ⟨lines, os, hshows⟩ := exists_showsNesting (readFrom_of_readProgram hread) hemit
  refine ⟨_, pieces, tail, eof, ctx, lines, hread, ⟨hscan, htiles⟩, ⟨rfl, heof, htail⟩,
    ⟨hctx, hshows.written⟩, ?_, ?_⟩
  · obtain ⟨os, -, hreadable⟩ := exists_programNests (readFrom_of_readProgram hread) hshows.written
    rw [← mentionsDrawing_eq, ← any_main_program hnames]
    refine fileShape_of_parts ?_ endsVisibly_trimEnd (startsVisibly_bodyText
      (opens_programLines (readFrom_of_readProgram hread) hshows.written) hreadable)
    rw [← intercalate_filter_parts, ← tokens_of_ofFiles hctx]
    exact hshows.text_eq
  · intro piece hpiece f hf
    have hpieces : NoMain piece.tokens := fun t ht =>
      hnames t (List.mem_flatten.2 ⟨_, List.mem_map_of_mem hpiece, ht⟩)
    rw [← Piece.isMain_item hpieces, hf]
    exact beq_iff_eq.symm

/-- A comment does not ask for the drawing functions, and a string literal does. -/
theorem compile_file_shape_literal :
    ∃ text, compile ⟨[], ["work"], ["home"], false⟩ .file "// gfx\nmain \x7b f(\"gfx!\"); \x7d" = .ok text ∧
      FileShape true "@profiler\ndef main():\n    f('gfx!')" true text := by
  let fs : Files := ⟨[], ["work"], ["home"], false⟩
  let source : String := "// gfx\nmain \x7b f(\"gfx!\"); \x7d"
  have hcompiles : (compile fs .file source).toOption.isSome = true := by decide +kernel
  have hseen : ((readProgram source).toOption.bind fun r => (Context.ofFiles fs r.1).toOption.bind
      fun ctx => (programLines ctx .file r.2).toOption.map fun lines =>
        (r.1.any fun t => occursIn "gfx" t.value, bodyText lines, r.2.functions.any (·.name == "main"))) =
      some (true, "@profiler\ndef main():\n    f('gfx!')", true) := by decide +kernel
  obtain ⟨text, hcompile⟩ := exists_eq_ok hcompiles
  obtain ⟨ts, pieces, tail, eof, ctx, lines, hread, ⟨-, htiles⟩, ⟨hts, -⟩, ⟨hctx, hlines⟩, hshape, -⟩ :=
    compile_file_shape fs hcompile
  have hnames : NoMain (Piece.join pieces) := fun t ht => noMain_of_tiles htiles t (by simp [hts, ht])
  rw [hread] at hseen
  dsimp only [Except.toOption, Option.bind] at hseen
  rw [hctx] at hseen
  dsimp only at hseen
  rw [hlines, any_main_program hnames] at hseen
  simp only [Option.map_some, Option.some.injEq, Prod.mk.injEq] at hseen
  rw [hseen.1, hseen.2.1, hseen.2.2] at hshape
  exact ⟨text, hcompile, hshape⟩

end ScriptWorkbench
