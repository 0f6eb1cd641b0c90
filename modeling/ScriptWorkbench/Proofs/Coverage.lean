/-
What a program keeps of its source.

One would expect the tokens of an accepted source to be those of its items, one after another, up to the end
of the input. That is so except at one point: a loose statement that breaks off at the end of the input is
accepted and dropped (`readProgram_eq_ok_iff`).
-/
import ScriptWorkbench.Compile
import ScriptWorkbench.Proofs.Locality
import ScriptWorkbench.Proofs.Tiling

namespace ScriptWorkbench

open Ast Token Grammar ScriptWorkbench.Parser List

variable {us : List Token} {n : Nat} {eof : Token} {p : Program}

/-! ## The end of the input -/

theorem scanFrom_closed {p : Position} {cs : List Char} {ts : List Token}
    (h : scanFrom p cs = .ok ts) :
    ∃ us eof, ts = us ++ [eof] ∧ NoEnd us ∧ eof.kind = .endOfInput := by
  obtain ⟨us, eof, hts, hus, heof⟩ := scanFrom_formed h
  exact ⟨us, eof, hts, fun t ht => (hus t ht).ne_end, heof⟩

theorem exists_eq_append_of_noEnd {rest body : List Token} (h : body ++ [eof] = us ++ rest)
    (hus : NoEnd us) (heof : eof.kind = .endOfInput) :
    ∃ vs, rest = vs ++ [eof] ∧ body = us ++ vs := by
  obtain ⟨vs, rfl, hvs⟩ | ⟨vs, rfl, rfl⟩ := append_eq_append_iff.1 h
  · match vs, hvs with
    | [], hvs => exact ⟨[], hvs.symm, by simp⟩
    | v :: vs, hvs =>
      obtain rfl := (cons.inj hvs).1
      exact absurd heof ((noEnd_append.1 hus).2 eof mem_cons_self)
  · exact ⟨vs, rfl, rfl⟩

/-! ## Statements that break off -/

/-- The tokens are the beginning of a statement, but no statement: it breaks off behind them. -/
def BreaksOff (us : List Token) : Prop := us ≠ [] ∧ (∃ vs s, Statement s (us ++ vs)) ∧ ¬∃ s, Statement s us

theorem BreaksOff.head (h : BreaksOff us) :
    ∃ t vs, us = t :: vs ∧ StartsStatement t.kind := by
  obtain ⟨hne, ⟨ws, s, hs⟩, -⟩ := h
  obtain ⟨t, vs, heq, ht⟩ := statement_head hs
  match us, hne with
  | u :: us, _ =>
    obtain ⟨rfl, -⟩ := cons.inj heq
    exact ⟨u, us, rfl, ht⟩

theorem statement_of_breaksOff (h : BreaksOff us) (heof : eof.kind = .endOfInput)
    (hn : 16 * (us ++ [eof]).length + 10 ≤ n) :
    ∃ want, statement n (us ++ [eof]) = .error (.unexpected want eof) := by
  obtain ⟨-, ⟨vs, s, hs⟩, hnot⟩ := h
  -- with the missing tokens in place, and any budget, the statement is read
  have hfull : ∀ m, 16 * (us ++ (vs ++ [eof])).length + 10 ≤ m →
      statement m (us ++ (vs ++ [eof])) = .ok (s, [eof]) := by
    intro m hm
    rw [← append_assoc] at hm ⊢
    exact statement_of_forms hs (by rw [nextIs_cons, heof]; decide) hm
  have hpass : Passes statement n us := by
    let m := n + (16 * (us ++ (vs ++ [eof])).length + 10)
    have hread := hfull m (Nat.le_add_left _ _)
    obtain (⟨a, ws, hws, hok⟩ | ⟨e, he⟩) | hpass := (statementsStepwise n).statement.toLocal.decide us
    · have hpos := length_pos_iff.2 hws
      grind
    · rw [he m _ (Nat.le_add_right _ _)] at hread
      cases hread
    · exact hpass
  have hmeets := (statementsMeet n).statement (us ++ [eof])
  have hinside := hpass [eof]
  match hr : statement n (us ++ [eof]) with
  | .ok (a, rest) =>
    rw [hr] at hmeets hinside
    obtain ⟨ws, hws, hend, ha⟩ := hmeets
    obtain ⟨xs, rfl, rfl⟩ := exists_eq_append_of_noEnd hws hend heof
    have hnil : xs = [] := by simpa using hinside.length_le
    exact absurd ⟨a, by simpa [hnil] using ha⟩ hnot
  | .error (.unexpected want t) =>
    rw [hr] at hinside
    obtain rfl : t = eof := mem_singleton.1 hinside
    exact ⟨want, rfl⟩
  | .error (.badNumber e) =>
    rw [hr] at hinside
    obtain ⟨t, ht, hnum, -⟩ := hinside
    rw [mem_singleton.1 ht, heof] at hnum
    cases hnum
  | .error (.misplaced t) => rw [hr] at hmeets; exact hmeets.elim
  | .error .ranOff =>
    rw [hr] at hmeets
    exact absurd heof ((noEnd_append.1 hmeets.1).2 eof mem_cons_self)
  | .error .exhausted =>
    rw [hr] at hmeets
    exact absurd hmeets (Nat.not_lt.2 hn)

theorem breaksOff_of_statement {want : Want} {found : Token} (heof : eof.kind = .endOfInput)
    (hfound : found.kind = .endOfInput) (hus : NoEnd us) (hne : us ≠ [])
    (hn : 16 * (us ++ [eof]).length + 10 ≤ n)
    (h : statement n (us ++ [eof]) = .error (.unexpected want found)) : BreaksOff us := by
  have hmeets := (statementsMeet n).statement (us ++ [eof])
  rw [h] at hmeets
  obtain ⟨vs, rest, heq, hend, hbegins⟩ := hmeets
  obtain ⟨ws, hws, rfl⟩ := exists_eq_append_of_noEnd heq hend heof
  have hnil : ws = [] := by
    match ws, hws with
    | [], _ => rfl
    | w :: ws, hws =>
      obtain ⟨rfl, -⟩ := cons.inj hws
      exact absurd hfound ((noEnd_append.1 hus).2 found mem_cons_self)
  rw [hnil, append_nil] at h hn hne ⊢
  refine ⟨hne, hbegins, ?_⟩
  rintro ⟨s, hs⟩
  rw [statement_of_forms hs (by rw [nextIs_cons, heof]; decide) hn] at h
  cases h

theorem topLevel_of_breaksOff (h : BreaksOff us) (heof : eof.kind = .endOfInput)
    (hn : 16 * (us ++ [eof]).length + 11 ≤ n) :
    topLevel n (us ++ [eof]) = .ok ⟨[], [], []⟩ := by
  obtain _ | n := n
  · omega
  obtain ⟨want, hread⟩ := statement_of_breaksOff h heof (by omega : _ ≤ n)
  obtain ⟨t, vs, rfl, ht⟩ := h.head
  rw [cons_append] at hread ⊢
  rw [topLevel_succ _ ht.loose.2, item_statement _ ht, hread, ht.loose.1]
  exact if_pos heof

theorem topLevel_end (heof : eof.kind = .endOfInput) :
    topLevel (n + 1) [eof] = .ok ⟨[], [], []⟩ := by
  rw [topLevel, heof]

/-! ## Programs -/

/-- The tokens before the end of the input are those of the items of a program, and possibly of one
more statement that breaks off. -/
def Covers (p : Program) (us : List Token) : Prop :=
  ∃ pieces tail, us = Piece.join pieces ++ tail ∧ p = Piece.program pieces ∧ (tail = [] ∨ BreaksOff tail)

theorem Covers.cons {p : Program} {item : Item} {us vs : List Token} (hitem : Makes item us)
    (h : Covers p vs) : Covers (item.addTo p) (us ++ vs) := by
  obtain ⟨pieces, tail, rfl, rfl, htail⟩ := h
  refine ⟨⟨item, us, hitem⟩ :: pieces, tail, ?_, rfl, htail⟩
  simp [Piece.join]

theorem topLevel_of_covers (h : Covers p us) (heof : eof.kind = .endOfInput)
    (hn : 16 * (us ++ [eof]).length + 11 ≤ n) : topLevel n (us ++ [eof]) = .ok p := by
  obtain ⟨pieces, tail, rfl, rfl, htail⟩ := h
  rw [append_assoc] at hn ⊢
  refine topLevel_of_pieces pieces ?_ (fun m hm => ?_) hn
  · obtain rfl | hbreak := htail
    · rw [nil_append, nextIs_cons, heof]
      decide
    · obtain ⟨t, vs, rfl, ht⟩ := hbreak.head
      rw [cons_append, nextIs_cons]
      intro h
      exact not_startsStatement_else (h ▸ ht)
  · obtain rfl | hbreak := htail
    · obtain ⟨m, rfl⟩ := Nat.exists_eq_add_one_of_ne_zero (by omega : m ≠ 0)
      exact topLevel_end heof
    · exact topLevel_of_breaksOff hbreak heof hm

/-- **One step at the top level.** A reader that makes an item takes its tokens from before the end of
the input, and the program behind them is read from the rest. -/
theorem covers_step {α : Type} {short : Prop} {opened : List Token → Prop} (item : α → Item)
    (ws : List Token) {r : Except Failure (Read α)} (heof : eof.kind = .endOfInput) (hus : NoEnd us)
    (ih : ∀ {p us'}, us'.length < (ws ++ us).length → NoEnd us' →
      topLevel n (us' ++ [eof]) = .ok p → Covers p us')
    (hmeets : Meets short (fun vs a _ => Makes (item a) (ws ++ vs)) opened (us ++ [eof]) r)
    (h : (r >>= fun x => topLevel n x.2 >>= fun p => .ok ((item x.1).addTo p)) = .ok p) :
    Covers p (ws ++ us) := by
  obtain ⟨⟨a, rest⟩, rfl, hitem⟩ := bind_eq_ok h
  obtain ⟨p', hrest, hp⟩ := bind_eq_ok hitem
  obtain ⟨vs, heq, hend, hmakes⟩ := hmeets
  obtain ⟨us', rfl, rfl⟩ := exists_eq_append_of_noEnd heq hend heof
  obtain rfl := Except.ok.inj hp
  have hshorter : us'.length < (ws ++ (vs ++ us')).length := by
    obtain ⟨t, ts, htokens, -⟩ := makes_head hmakes
    rw [← append_assoc, htokens, length_append, length_cons]
    omega
  have hcovers : Covers p' us' := ih hshorter (noEnd_append.1 hus).2 hrest
  rw [← append_assoc]
  exact Covers.cons hmakes hcovers

theorem covers_of_topLevel (hus : NoEnd us) (heof : eof.kind = .endOfInput)
    (hn : 16 * (us ++ [eof]).length + 11 ≤ n) (h : topLevel n (us ++ [eof]) = .ok p) :
    Covers p us := by
  induction n generalizing p us with
  | zero => omega
  | succ n ihn =>
    match us with
    | [] =>
      rw [nil_append, topLevel_end heof] at h
      cases h
      exact ⟨[], [], rfl, rfl, .inl rfl⟩
    | t :: us =>
      obtain ⟨ht, hus'⟩ := noEnd_cons.1 hus
      have ih : ∀ {p us'}, us'.length < (t :: us).length → NoEnd us' →
          topLevel n (us' ++ [eof]) = .ok p → Covers p us' := by
        grind
      rw [cons_append, topLevel] at h
      split at h
      next hkind => exact absurd hkind ht
      next => cases h
      next hkind => exact covers_step .function [t] heof hus' ih (function_meets n _ hkind) h
      next hkind => exact covers_step .function [t] heof hus' ih (mainBlock_meets n _ hkind) h
      next hkind => exact covers_step .declaration [t] heof hus' ih (classDeclaration_meets n _ hkind) h
      next =>
        split at h
        next s rest hread =>
          have hmeets := (statementsMeet n).statement (t :: us ++ [eof])
          rw [cons_append, hread] at hmeets
          exact covers_step .statement [] heof hus ih (hmeets.imp id
            (fun _ _ _ _ hs => .statement hs) (fun _ ho => ho)) h
        next want found hread =>
          -- The only failure that the top level forgives.
          by_cases hfound : found.kind = .endOfInput
          · rw [if_pos hfound] at h
            cases h
            exact ⟨[], t :: us, rfl, rfl, .inr (breaksOff_of_statement heof hfound hus
              (cons_ne_nil t us) (by grind) hread)⟩
          · rw [if_neg hfound] at h
            cases h
        next => cases h

/-- **What an accepted source consists of.** A source is accepted with a program if and only if its
tokens are those of the program's items in order and the end of the input, except that one further
statement may stand before the end of the input which breaks off there; the program has no part of
it. -/
theorem readProgram_eq_ok_iff (source : String) (ts : List Token) (p : Program) :
    readProgram source = .ok (ts, p) ↔
      scan source = .ok ts ∧ ∃ pieces tail eof,
        ts = Piece.join pieces ++ tail ++ [eof] ∧ eof.kind = .endOfInput ∧
          p = Piece.program pieces ∧ (tail = [] ∨ BreaksOff tail) := by
  have hbudget : ∀ us : List Token, 16 * us.length + 11 ≤ budget us := by
    intro us
    rw [budget]
    omega
  constructor
  · intro h
    rw [readProgram] at h
    split at h
    next => cases h
    next ts' hscan =>
      split at h
      next => cases h
      next p' hparse =>
        cases h
        obtain ⟨us, eof, rfl, hus, heof⟩ := scanFrom_closed hscan
        obtain ⟨pieces, tail, rfl, hp, htail⟩ := covers_of_topLevel hus heof (hbudget _) hparse
        exact ⟨hscan, pieces, tail, eof, rfl, heof, hp, htail⟩
  · rintro ⟨hscan, pieces, tail, eof, rfl, heof, hp, htail⟩
    have hparse : parse (Piece.join pieces ++ tail ++ [eof]) = .ok p :=
      topLevel_of_covers ⟨pieces, tail, rfl, hp, htail⟩ heof (hbudget _)
    rw [readProgram, hscan]
    dsimp only
    rw [hparse]

/-- The tokens of `let x = 1`, without the semicolon, are accepted and nothing is kept of them. -/
theorem parse_drops_unfinished_let :
    parse [⟨.letWord, "let", ⟨1, 1⟩⟩, ⟨.identifier, "x", ⟨1, 5⟩⟩, ⟨.equal, "=", ⟨1, 7⟩⟩,
      ⟨.number, "1", ⟨1, 9⟩⟩, ⟨.endOfInput, "", ⟨1, 10⟩⟩] = .ok ⟨[], [], []⟩ := by
  rfl

end ScriptWorkbench
