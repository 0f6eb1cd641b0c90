/-
The tokens of a source stand in reading order.

The scanner counts on from piece to piece, and a token takes at least one character. Hence no two tokens of a
source begin at the same place, and a token that a message points to is a token of its own.
-/
import ScriptWorkbench.Proofs.TokenPlaces

namespace ScriptWorkbench.Token

open List

/-- Reading order: by line, and by column on the same line. -/
instance : LE Position := ⟨fun p q => p.line < q.line ∨ p.line = q.line ∧ p.column ≤ q.column⟩

namespace Position

variable {p q r : Position}

theorem le_iff : p ≤ q ↔ p.line < q.line ∨ p.line = q.line ∧ p.column ≤ q.column := Iff.rfl

theorem le_chain (h : p ≤ q) (h' : q ≤ r) : p ≤ r := by
  rw [le_iff] at *
  omega

theorem advance_le_advance (p : Position) {m n : Nat} (h : m ≤ n) : p.advance m ≤ p.advance n :=
  .inr ⟨rfl, Nat.add_le_add_left h _⟩

theorem le_after (p : Position) (cs : List Char) : p ≤ p.after cs := by
  induction cs generalizing p with
  | nil => exact p.advance_le_advance (Nat.zero_le 0)
  | cons c cs ih =>
    have hfirst : p ≤ p.afterGap c := by
      rw [afterGap]
      split
      · exact .inl (Nat.lt_succ_self _)
      · exact p.advance_le_advance (Nat.zero_le 1)
    exact le_chain hfirst (ih _)

end Position

/-- **Places come in reading order,** each behind the first character of what stands at the one before. -/
theorem countedPlaces_ordered {cs : List Char} {tiles : List Tile} (h : LaidOut cs tiles) (p : Position) :
    (∀ q ∈ countedPlaces p tiles, p ≤ q) ∧ (countedPlaces p tiles).Pairwise fun q r => q.advance 1 ≤ r := by
  induction h generalizing p with
  | done => exact ⟨forall_mem_singleton.2 (p.le_after _), pairwise_singleton _ _⟩
  | @token gap glued text rest w tiles _ _ htext _ _ ih =>
    obtain ⟨c, cs, rfl, -⟩ := htext.head
    have hfirst := p.le_after (gap ++ widened glued)
    generalize hq : p.after (gap ++ widened glued) = q at hfirst
    obtain ⟨hle, hsorted⟩ := ih (q.advance (c :: cs).length)
    have hbehind : ∀ r ∈ countedPlaces (q.advance (c :: cs).length) tiles, q.advance 1 ≤ r := fun r hr =>
      Position.le_chain (q.advance_le_advance (Nat.succ_pos _)) (hle r hr)
    rw [countedPlaces, hq]
    refine ⟨forall_mem_cons.2 ⟨hfirst, fun r hr => ?_⟩, pairwise_cons.2 ⟨hbehind, hsorted⟩⟩
    exact Position.le_chain hfirst (Position.le_chain (q.advance_le_advance (Nat.zero_le 1)) (hbehind r hr))

theorem scan_nodup {source : String} {ts : List Token} (h : scan source = .ok ts) : ts.Nodup := by
  obtain ⟨tiles, htiles⟩ := exists_laidOut (tiles_of_scanFrom h)
  obtain ⟨us, hus, -, hplaces⟩ := scanFrom_of_laidOut htiles .start
  obtain rfl : ts = us := Except.ok.inj (h.symm.trans hus)
  have hordered := (countedPlaces_ordered htiles .start).2
  rw [← hplaces, pairwise_map] at hordered
  refine hordered.imp fun {t u} hle => ?_
  rintro rfl
  simp only [Position.le_iff, Position.advance] at hle
  omega

end ScriptWorkbench.Token
