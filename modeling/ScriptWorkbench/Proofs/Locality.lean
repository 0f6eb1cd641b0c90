/-
What a reader has decided when a stretch of tokens is used up.

The parser goes from left to right. So for each reader and each stretch of tokens there are two possibilities.
Either the answer is settled: it is the same whatever follows. Or the reader gets to the end of the stretch,
and then all that it leaves or blames lies behind it. Single steps have this property and sequencing keeps it.
-/
import ScriptWorkbench.Proofs.Stepwise

namespace ScriptWorkbench.Parser

open Ast Token Grammar List

/-! ## Settled answers -/

section Local

variable {α β : Type} {n : Nat} {f : Reader α}

/-- The answer concerns the given tokens only: what is left is an end of them, and what is blamed is
one of them. -/
def Inside (ts : List Token) : Except Failure (Read α) → Prop
  | .ok (_, rest) => rest <:+ ts
  | .error (.unexpected _ t) => t ∈ ts
  | .error (.badNumber e) => ∃ t ∈ ts, t.kind = .number ∧ numberLiteral t.value = .error e
  | .error _ => True

/-- The answer is reached before the end of the tokens, whatever follows them and whatever budget
from `n` on is granted. -/
def Settles (f : Reader α) (n : Nat) (us : List Token) : Prop :=
  (∃ a vs, vs ≠ [] ∧ ∀ m rest, n ≤ m → f m (us ++ rest) = .ok (a, vs ++ rest)) ∨
    ∃ e, ∀ m rest, n ≤ m → f m (us ++ rest) = .error e

def Passes (f : Reader α) (n : Nat) (us : List Token) : Prop := ∀ rest, Inside rest (f n (us ++ rest))

/-- **A reader from left to right.** Every stretch of tokens settles its answer or is passed. -/
structure Local (f : Reader α) (n : Nat) : Prop where
  inside : ∀ ts, Inside ts (f n ts)
  decide : ∀ us, Settles f n us ∨ Passes f n us

theorem Inside.mono {us ts : List Token} {r : Except Failure (Read α)} (h : Inside us r)
    (hsub : us <:+ ts) : Inside ts r := by
  match r, h with
  | .ok _, h => exact List.IsSuffix.trans h hsub
  | .error (.unexpected ..), h => exact hsub.subset h
  | .error (.badNumber _), ⟨t, ht, hnum⟩ => exact ⟨t, hsub.subset ht, hnum⟩
  | .error (.misplaced _), _ => trivial
  | .error .ranOff, _ => trivial
  | .error .exhausted, _ => trivial

theorem Inside.bind {ts : List Token} {r : Except Failure (Read α)}
    {g : Read α → Except Failure (Read β)} (h : Inside ts r)
    (hg : ∀ a rest, Inside rest (g (a, rest))) : Inside ts (r >>= g) := by
  match r, h with
  | .ok (a, rest), h => exact (hg a rest).mono h
  | .error (.unexpected ..), h => exact h
  | .error (.badNumber _), h => exact h
  | .error (.misplaced _), _ => trivial
  | .error .ranOff, _ => trivial
  | .error .exhausted, _ => trivial

/-- **Two readers after each other.** -/
theorem Local.bind {g : α → Reader β} (hf : Local f n)
    (hg : ∀ a, Local (g a) n) : Local (fun m ts => f m ts >>= fun x => g x.1 m x.2) n := by
  refine ⟨fun ts => (hf.inside ts).bind fun a => (hg a).inside, fun us => ?_⟩
  obtain (⟨a, vs, hvs, hok⟩ | ⟨e, he⟩) | hpass := hf.decide us
  · have hbind : ∀ m rest, n ≤ m →
        (f m (us ++ rest) >>= fun x => g x.1 m x.2) = g a m (vs ++ rest) := by
      intro m rest hm
      rw [hok m rest hm, ok_bind]
    obtain (⟨b, ws, hws, hok'⟩ | ⟨e, he⟩) | hpass := (hg a).decide vs
    · exact .inl (.inl ⟨b, ws, hws, fun m rest hm => (hbind m rest hm).trans (hok' m rest hm)⟩)
    · exact .inl (.inr ⟨e, fun m rest hm => (hbind m rest hm).trans (he m rest hm)⟩)
    · exact .inr fun rest =>
        (congrArg (Inside rest) (hbind n rest (Nat.le_refl n))).mpr (hpass rest)
  · have hbind : ∀ m rest, n ≤ m → (f m (us ++ rest) >>= fun x => g x.1 m x.2) = .error e := by
      intro m rest hm
      rw [he m rest hm]
      rfl
    exact .inl (.inr ⟨e, hbind⟩)
  · exact .inr fun rest => (hpass rest).bind fun a => (hg a).inside

theorem Local.succ (h : Local (fun m => f (m + 1)) n) : Local f (n + 1) := by
  refine ⟨h.inside, fun us => ?_⟩
  obtain (⟨a, vs, hvs, hok⟩ | ⟨e, he⟩) | hpass := h.decide us
  · refine .inl (.inl ⟨a, vs, hvs, fun m rest hm => ?_⟩)
    obtain _ | m := m
    · omega
    exact hok m rest (by omega)
  · refine .inl (.inr ⟨e, fun m rest hm => ?_⟩)
    obtain _ | m := m
    · omega
    exact he m rest (by omega)
  · exact .inr hpass

theorem Local.pure (a : α) : Local (fun _ ts => .ok (a, ts)) n := by
  refine ⟨fun ts => suffix_refl ts, fun us => ?_⟩
  match us with
  | [] => exact .inr fun rest => suffix_refl rest
  | t :: us => exact .inl (.inl ⟨a, t :: us, cons_ne_nil t us, fun _ _ _ => rfl⟩)

theorem Local.exhausted (h : ∀ ts, f n ts = .error .exhausted) : Local f n := by
  refine ⟨fun ts => ?_, fun us => .inr fun rest => ?_⟩
  · rw [h]
    trivial
  · rw [h]
    trivial

theorem Local.reject (want : Want) :
    Local (fun _ ts => (reject want ts : Except Failure (Read α))) n := by
  have hinside : ∀ ts, Inside ts (Parser.reject want ts : Except Failure (Read α)) := by
    intro ts
    match ts with
    | [] => trivial
    | t :: ts => exact mem_cons_self
  refine ⟨hinside, fun us => ?_⟩
  match us with
  | [] => exact .inr hinside
  | t :: us => exact .inl (.inr ⟨.unexpected want t, fun _ _ _ => rfl⟩)

theorem local_number : Local (fun _ => number) n := by
  have hinside : ∀ ts, Inside ts (number ts) := by
    intro ts
    match ts with
    | [] => trivial
    | t :: ts =>
      rw [number]
      split
      next ht =>
        split
        next => exact suffix_cons t ts
        next e he => exact ⟨t, mem_cons_self, ht, he⟩
      next => exact mem_cons_self
  refine ⟨hinside, fun us => ?_⟩
  match us with
  | [] => exact .inr hinside
  | t :: us =>
    by_cases ht : t.kind = .number
    · cases hv : numberLiteral t.value with
      | ok v =>
        have hread : ∀ ts, number (t :: ts) = .ok (.literal v, ts) := by
          intro ts
          rw [number, if_pos ht, hv]
        simpa only [Settles, Passes, cons_append, hread] using (Local.pure (Expr.literal v)).decide us
      | error e =>
        refine .inl (.inr ⟨.badNumber e, fun _ rest _ => ?_⟩)
        change number (t :: (us ++ rest)) = _
        rw [number, if_pos ht, hv]
    · exact .inl (.inr ⟨.unexpected .expression t, fun _ rest _ => if_neg ht⟩)

theorem Local.head {g : Token → Reader α} (hnil : Inside [] (f n [])) (hg : ∀ t, Local (g t) n)
    (hcons : ∀ t, (∀ m ts, f m (t :: ts) = g t m ts) ∨ ∀ m ts, f m (t :: ts) = g t m (t :: ts)) :
    Local f n := by
  have hinside : ∀ ts, Inside ts (f n ts) := by
    intro ts
    match ts with
    | [] => exact hnil
    | t :: ts =>
      obtain h | h := hcons t <;> rw [h]
      · exact ((hg t).inside ts).mono (suffix_cons t ts)
      · exact (hg t).inside (t :: ts)
  refine ⟨hinside, fun us => ?_⟩
  match us with
  | [] => exact .inr hinside
  | t :: us =>
    obtain h | h := hcons t
    · simpa only [Settles, Passes, cons_append, h] using (hg t).decide us
    · simpa only [Settles, Passes, cons_append, h] using (hg t).decide (t :: us)

/-- **Single steps go from left to right.** -/
theorem Stepwise.toLocal (h : Stepwise f n) : Local f n := by
  induction h with
  | pure a => exact .pure a
  | reject want => exact .reject want
  | number => exact local_number
  | exhausted h => exact .exhausted h
  | succ _ ih => exact .succ ih
  | bind _ _ ihf ihg => exact ihf.bind ihg
  | head taken _ hnil _ hcons ihend ihg =>
    refine .head ?_ (fun t => ihg t.kind t.value) fun t => ?_
    · rw [hnil]
      exact ihend.inside []
    · cases ht : taken t.kind t.value with
      | true => exact .inl fun m ts => by rw [hcons, ht, if_pos rfl]
      | false => exact .inr fun m ts => by rw [hcons, ht, if_neg Bool.false_ne_true]

end Local

end ScriptWorkbench.Parser
