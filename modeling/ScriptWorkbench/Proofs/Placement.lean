/-
The parser does not look at places.

**Taking the places of tokens away before parsing gives the program, or the failure, that taking them away
after parsing gives.** This is stated as a property of readers, `Blind`, which single steps have and
sequencing keeps.
-/
import ScriptWorkbench.Proofs.Stepwise

namespace ScriptWorkbench

open Ast Token Grammar List

/-! ## Places taken away -/

def Token.unplaced (t : Token) : Token := { t with position := .start }

def Token.content (t : Token) : Kind × String := (t.kind, t.value)

theorem map_unplaced_eq_iff {ts us : List Token} :
    ts.map Token.unplaced = us.map Token.unplaced ↔ ts.map Token.content = us.map Token.content := by
  have hcontent : ∀ t : Token, t.unplaced.content = t.content := fun _ => rfl
  have hback : ∀ t : Token, t.unplaced = ⟨t.content.1, t.content.2, .start⟩ := fun _ => rfl
  constructor
  · intro h
    have := congrArg (map Token.content) h
    simpa only [map_map, Function.comp_def, hcontent] using this
  · intro h
    have := congrArg (map fun c : Kind × String => (⟨c.1, c.2, .start⟩ : Token)) h
    simpa only [map_map, Function.comp_def, ← hback] using this

namespace Parser

def Failure.unplaced : Failure → Failure
  | .unexpected want found => .unexpected want found.unplaced
  | .misplaced found => .misplaced found.unplaced
  | e => e

def unplace {α : Type} : Except Failure (Read α) → Except Failure (Read α)
  | .ok (a, rest) => .ok (a, rest.map Token.unplaced)
  | .error e => .error e.unplaced

/-! ## Readers that do not look at places -/

/-- **A reader that does not look at places:** without them it reads the same. -/
def Blind {α : Type} (f : List Token → Except Failure (Read α)) : Prop :=
  ∀ ts, f (ts.map Token.unplaced) = unplace (f ts)

/-- **Two readers after each other.** -/
theorem Blind.bind {α β : Type} {f : List Token → Except Failure (Read α)}
    {g : α → List Token → Except Failure (Read β)} (hf : Blind f) (hg : ∀ a, Blind (g a)) :
    Blind fun ts => f ts >>= fun x => g x.1 x.2 := by
  intro ts
  dsimp only
  rw [hf ts]
  cases f ts with
  | error e => rfl
  | ok x => exact hg x.1 x.2

theorem blind_number : Blind number := by
  intro ts
  match ts with
  | [] => rfl
  | t :: ts =>
    by_cases ht : t.kind = .number
    · rw [map_cons, number, number, if_pos ht, if_pos (show t.unplaced.kind = _ from ht),
        show t.unplaced.value = t.value from rfl]
      cases numberLiteral t.value <;> rfl
    · rw [map_cons, number, number, if_neg ht, if_neg (show ¬t.unplaced.kind = _ from ht)]
      rfl

/-- **Single steps do not look at places.** -/
theorem Stepwise.blind {α : Type} {n : Nat} {f : Reader α} (h : Stepwise f n) : Blind (f n) := by
  induction h with
  | pure a => exact fun _ => rfl
  | reject want => exact fun ts => by cases ts <;> rfl
  | number => exact blind_number
  | exhausted h =>
    intro ts
    rw [h, h]
    rfl
  | succ _ ih => exact ih
  | bind _ _ ihf ihg => exact ihf.bind ihg
  | head taken _ hnil _ hcons ihend ihg =>
    intro ts
    match ts with
    | [] =>
      rw [map_nil, hnil]
      exact ihend []
    | t :: ts =>
      rw [map_cons, hcons, hcons, show t.unplaced.kind = t.kind from rfl,
        show t.unplaced.value = t.value from rfl]
      cases taken t.kind t.value with
      | true => exact ihg t.kind t.value ts
      | false => exact ihg t.kind t.value (t :: ts)

/-! ## Programs -/

theorem itemFailure_unplaced (loose : Bool) (e : Failure) :
    itemFailure loose e.unplaced = (itemFailure loose e).mapError Failure.unplaced := by
  cases e with
  | unexpected want found =>
    cases loose with
    | false => rfl
    | true =>
      rw [Failure.unplaced, itemFailure, itemFailure]
      by_cases h : found.kind = .endOfInput
      · rw [if_pos h, if_pos (show found.unplaced.kind = _ from h)]
        rfl
      · rw [if_neg h, if_neg (show ¬found.unplaced.kind = _ from h)]
        rfl
  | misplaced _ | ranOff | badNumber _ | exhausted => rfl

theorem topLevel_unplaced (n : Nat) (ts : List Token) :
    topLevel n (ts.map Token.unplaced) = (topLevel n ts).mapError Failure.unplaced := by
  induction n generalizing ts with
  | zero => rfl
  | succ n ih =>
    match ts with
    | [] => rfl
    | t :: ts =>
      by_cases ht : t.kind = .endOfInput
      · rw [map_cons, topLevel, topLevel, show t.unplaced.kind = t.kind from rfl, ht]
        rfl
      · have hitem := (stepwise_item n).blind (t :: ts)
        rw [map_cons] at hitem ⊢
        rw [topLevel_succ ts ht, topLevel_succ _ (show t.unplaced.kind ≠ _ from ht), hitem]
        cases item n (t :: ts) with
        | error e => exact itemFailure_unplaced (isLoose t.kind) e
        | ok x =>
          simp only [unplace, ih]
          cases topLevel n x.2 <;> rfl

/-- **The parser does not look at places.** -/
theorem parse_unplaced (ts : List Token) :
    parse (ts.map Token.unplaced) = (parse ts).mapError Failure.unplaced := by
  rw [parse, budget, length_map]
  exact topLevel_unplaced _ ts

end Parser

end ScriptWorkbench
