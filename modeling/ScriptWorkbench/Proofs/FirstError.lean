/-
A failure of the parser names the first wrong token.

The two halves have different grounds. What stands before the named token is completed item by item. That the
named token itself is wrong follows from reading left to right: the failure was settled when the parser had
seen that token and nothing behind it. For this the named token has to be one of its own in the source, which
tokens are as they begin at different places.
-/
import ScriptWorkbench.Proofs.Coverage
import ScriptWorkbench.Proofs.TokenOrder

namespace ScriptWorkbench.Parser

open Ast Token Grammar List

variable {e : Failure} {ts us : List Token} {n : Nat} {t : Token}

/-! ## The token that a failure names -/

def Failure.found? : Failure → Option Token
  | .unexpected _ t | .misplaced t => some t
  | .ranOff | .badNumber _ | .exhausted => none

theorem isScriptError_parse (e : Failure) :
    (CompileError.parse e).isScriptError = e.found?.isSome := by
  cases e <;> rfl

theorem found?_of_itemFailure {loose : Bool} {e' : Failure} (h : itemFailure loose e' = .error e)
    (hfound : e.found? = some t) : e'.found? = some t := by
  cases e' with
  | unexpected want found =>
    rw [itemFailure] at h
    split at h
    · split at h <;> cases h
      exact hfound
    · cases h
      exact hfound
  | misplaced _ | ranOff | badNumber _ | exhausted => cases h; exact hfound

theorem eq_unexpected_of_item (h : item n ts = .error e) (hfound : e.found? = some t) :
    ∃ want, e = .unexpected want t := by
  have hmeets := item_meets n ts
  rw [h] at hmeets
  cases e with
  | unexpected want found => cases hfound; exact ⟨want, rfl⟩
  | misplaced _ => exact hmeets.elim
  | ranOff | badNumber _ | exhausted => cases hfound

theorem bind_eq_error {α β : Type} {r : Except Failure α} {f : α → Except Failure β}
    (h : (r >>= f) = .error e) (hf : ∀ a, f a ≠ .error e) : r = .error e := by
  cases r with
  | error _ => cases h; rfl
  | ok a => exact absurd h (hf a)

theorem topLevel_eq_error (h : topLevel n ts = .error e) (hfound : e.found? = some t) :
    ∃ m u us, n = m + 1 ∧ ts = u :: us ∧ u.kind ≠ .endOfInput ∧
      ((∃ i rest, item m ts = .ok (i, rest) ∧ topLevel m rest = .error e) ∨
        ∃ want, item m ts = .error (.unexpected want t) ∧
          itemFailure (isLoose u.kind) (.unexpected want t) = .error e) := by
  match n, ts with
  | 0, _ => cases h; cases hfound
  | _ + 1, [] => cases h; cases hfound
  | m + 1, u :: us =>
    have hu : u.kind ≠ .endOfInput := by
      intro hu
      rw [topLevel, hu] at h
      cases h
    refine ⟨m, u, us, rfl, rfl, hu, ?_⟩
    rw [topLevel_succ us hu] at h
    split at h
    next i rest hitem => exact .inl ⟨i, rest, hitem, bind_eq_error h fun _ => by simp⟩
    next e' hitem =>
      obtain ⟨want, rfl⟩ := eq_unexpected_of_item hitem (found?_of_itemFailure h hfound)
      exact .inr ⟨want, hitem, h⟩

/-! ## Before the named token -/

def Viable (us : List Token) : Prop :=
  ∃ vs pieces eof, us ++ vs = Piece.join pieces ++ [eof] ∧ eof.kind = .endOfInput

theorem viable_of_beginsItem (pieces : List Piece) (h : BeginsItem us) :
    Viable (Piece.join pieces ++ us) := by
  obtain ⟨vs, i, hi⟩ := h
  refine ⟨vs ++ [someToken .endOfInput], pieces ++ [⟨i, us ++ vs, hi⟩], _, ?_, someToken_kind⟩
  simp [Piece.join]

/-- **The tokens before the named one** are items that were read and the beginning of the next. -/
theorem exists_pieces_of_topLevel_error (h : topLevel n ts = .error e) (hfound : e.found? = some t) :
    ∃ pieces us rest, ts = Piece.join pieces ++ us ++ t :: rest ∧ BeginsItem us := by
  induction n generalizing ts with
  | zero => cases h; cases hfound
  | succ n ih =>
    obtain ⟨m, u, us, hm, -, -, hcase⟩ := topLevel_eq_error h hfound
    obtain rfl := Nat.succ.inj hm
    have hmeets := item_meets n ts
    obtain ⟨i, rest, hitem, hrest⟩ | ⟨want, hitem, -⟩ := hcase
    · rw [hitem] at hmeets
      obtain ⟨vs, rfl, -, hmakes⟩ := hmeets
      obtain ⟨pieces, ws, xs, rfl, hbegins⟩ := ih hrest
      refine ⟨⟨i, vs, hmakes⟩ :: pieces, ws, xs, ?_, hbegins⟩
      simp [Piece.join]
    · rw [hitem] at hmeets
      obtain ⟨vs, rest, rfl, -, hbegins⟩ := hmeets
      exact ⟨[], vs, rest, rfl, hbegins⟩

/-! ## The named token -/

section Settled

variable {α : Type} {n : Nat} {f : Nat → List Token → Except Failure (Read α)}
  {us rest : List Token} {t : Token}

theorem Local.ok_of_mem (hf : Local f n) {a : α} {xs : List Token}
    (h : f n (us ++ t :: rest) = .ok (a, xs)) (hmem : t ∈ xs) (hrest : t ∉ rest) :
    ∃ ws, xs = ws ++ t :: rest ∧ ∀ m vs, n ≤ m → f m (us ++ t :: vs) = .ok (a, ws ++ t :: vs) := by
  have hsplit : ∀ vs, us ++ t :: vs = us ++ [t] ++ vs := by simp
  rw [hsplit] at h
  obtain (⟨b, ys, hys, hok⟩ | ⟨e, he⟩) | hpass := hf.decide (us ++ [t])
  · have hinside := hf.inside (us ++ [t] ++ [])
    rw [hok n [] (Nat.le_refl n), append_nil, append_nil] at hinside
    obtain rfl | ⟨ws, rfl, -⟩ := suffix_concat_iff.1 hinside
    · exact absurd rfl hys
    rw [hok n rest (Nat.le_refl n)] at h
    obtain ⟨rfl, rfl⟩ := Prod.mk.inj (Except.ok.inj h)
    refine ⟨ws, by simp, fun m vs hm => ?_⟩
    rw [hsplit, hok m vs hm]
    simp
  · rw [he n rest (Nat.le_refl n)] at h
    cases h
  · have hinside := hpass rest
    rw [h] at hinside
    exact absurd (hinside.subset hmem) hrest

theorem Local.error_of_not_mem (hf : Local f n) {want : Want}
    (h : f n (us ++ t :: rest) = .error (.unexpected want t)) (hrest : t ∉ rest) :
    ∀ m vs, n ≤ m → f m (us ++ t :: vs) = .error (.unexpected want t) := by
  have hsplit : ∀ vs, us ++ t :: vs = us ++ [t] ++ vs := by simp
  rw [hsplit] at h
  obtain (⟨b, ys, hys, hok⟩ | ⟨e, he⟩) | hpass := hf.decide (us ++ [t])
  · rw [hok n rest (Nat.le_refl n)] at h
    cases h
  · rw [he n rest (Nat.le_refl n)] at h
    cases h
    intro m vs hm
    rw [hsplit, he m vs hm]
  · have hinside := hpass rest
    rw [h] at hinside
    exact absurd hinside hrest

end Settled

/-- **The failure stays** whatever is put behind the named token, and whatever more budget is
granted. -/
theorem topLevel_error_stays {m : Nat} {rest vs : List Token} (hnodup : (us ++ t :: rest).Nodup)
    (h : topLevel n (us ++ t :: rest) = .error e) (hfound : e.found? = some t) (hm : n ≤ m) :
    topLevel m (us ++ t :: vs) = .error e := by
  induction n generalizing us m with
  | zero => cases h; cases hfound
  | succ n ih =>
    obtain _ | m := m
    · omega
    have hrest : t ∉ rest := (nodup_cons.1 (nodup_append.1 hnodup).2.1).1
    obtain ⟨n', u, xs, hn, hxs, hu, hcase⟩ := topLevel_eq_error h hfound
    obtain rfl := Nat.succ.inj hn
    -- the two lists start with the same token
    obtain ⟨ys, hys⟩ : ∃ ys, us ++ t :: vs = u :: ys := by
      cases us with
      | nil => exact ⟨vs, by rw [nil_append, (cons.inj hxs).1]⟩
      | cons w us => exact ⟨us ++ t :: vs, by rw [cons_append, (cons.inj hxs).1]⟩
    obtain ⟨i, zs, hitem, hzs⟩ | ⟨want, hitem, hloose⟩ := hcase
    · obtain ⟨pieces, ws, ws', hpieces, -⟩ := exists_pieces_of_topLevel_error hzs hfound
      have hmem : t ∈ zs := by simp [hpieces]
      obtain ⟨ws, rfl, hok⟩ := (stepwise_item n).toLocal.ok_of_mem hitem hmem hrest
      have hinside := (stepwise_item n).toLocal.inside (us ++ t :: rest)
      rw [hitem] at hinside
      have hagain := ih (hinside.sublist.nodup hnodup) hzs (by omega : n ≤ m)
      have hitem' := hok m vs (by omega)
      rw [hys] at hitem' ⊢
      rw [topLevel_succ ys hu, hitem']
      dsimp only
      rw [hagain]
      rfl
    · have hitem' := (stepwise_item n).toLocal.error_of_not_mem hitem hrest m vs (by omega)
      rw [hys] at hitem' ⊢
      rw [topLevel_succ ys hu, hitem']
      exact hloose

theorem not_viable_of_topLevel_error {rest : List Token} (hnodup : (us ++ t :: rest).Nodup)
    (h : topLevel n (us ++ t :: rest) = .error e) (hfound : e.found? = some t) :
    ¬Viable (us ++ [t]) := by
  rintro ⟨vs, pieces, eof, hjoin, heof⟩
  have hcovers : Covers (Piece.program pieces) (Piece.join pieces) :=
    ⟨pieces, [], by rw [append_nil], rfl, .inl rfl⟩
  let m := n + (16 * (Piece.join pieces ++ [eof]).length + 11)
  have hread : topLevel m (Piece.join pieces ++ [eof]) = .ok (Piece.program pieces) :=
    topLevel_of_covers hcovers heof (Nat.le_add_left _ _)
  have hfail : topLevel m (us ++ t :: vs) = .error e :=
    topLevel_error_stays hnodup h hfound (Nat.le_add_right _ _)
  rw [append_assoc, singleton_append] at hjoin
  rw [hjoin, hread] at hfail
  cases hfail

end ScriptWorkbench.Parser

namespace ScriptWorkbench

open Token ScriptWorkbench.Parser

/-- **Failures name the first wrong token.** Where a source is scanned but rejected by the parser as the
script's fault, the failure names one token of it. The tokens before that one can be completed to a
program; with it they cannot. -/
theorem parse_error_at_first_wrong_token {source : String} {ts : List Token} {e : Failure}
    (hscan : scan source = .ok ts) (hparse : parse ts = .error e)
    (hscript : (CompileError.parse e).isScriptError = true) :
    ∃ t k, e.found? = some t ∧ ts[k]? = some t ∧ (∀ j, ts[j]? = some t → j = k) ∧
      Viable (ts.take k) ∧ ¬Viable (ts.take (k + 1)) := by
  rw [isScriptError_parse, Option.isSome_iff_exists] at hscript
  obtain ⟨t, hfound⟩ := hscript
  have hnodup := scan_nodup hscan
  obtain ⟨pieces, us, rest, rfl, hbegins⟩ := exists_pieces_of_topLevel_error hparse hfound
  refine ⟨t, (Grammar.Piece.join pieces ++ us).length, hfound, by simp, fun j hj => ?_, ?_, ?_⟩
  · obtain ⟨hlt, -⟩ := List.getElem?_eq_some_iff.1 hj
    refine (List.getElem?_inj hlt hnodup).1 ?_
    rw [hj]
    simp
  · rw [List.take_left]
    exact viable_of_beginsItem pieces hbegins
  · have htake : (Grammar.Piece.join pieces ++ us ++ t :: rest).take
        ((Grammar.Piece.join pieces ++ us).length + 1) = Grammar.Piece.join pieces ++ us ++ [t] := by
      rw [List.take_length_add_append, List.take_succ_cons, List.take_zero]
    rw [htake]
    exact not_viable_of_topLevel_error hnodup hparse hfound

/-- In `x = 1; if y else z;` the token `else` is the first wrong one: the six tokens before it can still
become a program. -/
theorem parse_error_at_misplaced_else :
    ∃ ts, scan "x = 1; if y else z;" = .ok ts ∧
      parse ts = .error (.misplaced ⟨.elseWord, "else", ⟨1, 13⟩⟩) ∧
      Viable (ts.take 6) ∧ ¬Viable (ts.take 7) := by
  let ts : List Token := [⟨.identifier, "x", ⟨1, 1⟩⟩, ⟨.equal, "=", ⟨1, 3⟩⟩, ⟨.number, "1", ⟨1, 5⟩⟩,
    ⟨.semicolon, ";", ⟨1, 6⟩⟩, ⟨.ifWord, "if", ⟨1, 8⟩⟩, ⟨.identifier, "y", ⟨1, 11⟩⟩,
    ⟨.elseWord, "else", ⟨1, 13⟩⟩, ⟨.identifier, "z", ⟨1, 18⟩⟩, ⟨.semicolon, ";", ⟨1, 19⟩⟩,
    ⟨.endOfInput, "", ⟨1, 20⟩⟩]
  have hscan : scan "x = 1; if y else z;" = .ok ts := eq_ok_of_toOption (by decide +kernel)
  have hparse : parse ts = .error (.misplaced ⟨.elseWord, "else", ⟨1, 13⟩⟩) := rfl
  obtain ⟨t, k, hfound, -, honly, hviable, hnot⟩ := parse_error_at_first_wrong_token hscan hparse rfl
  obtain rfl : ⟨.elseWord, "else", ⟨1, 13⟩⟩ = t := Option.some.inj hfound
  obtain rfl : 6 = k := honly 6 rfl
  exact ⟨ts, hscan, hparse, hviable, hnot⟩

end ScriptWorkbench
