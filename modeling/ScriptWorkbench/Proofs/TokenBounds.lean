/-
The parser stays within its tokens, and comes to an end (`parse_within_tokens`).

Every statement and every expression takes at least one token, and it is for this that the budget is enough
for any list.
-/
import ScriptWorkbench.Proofs.FirstError

namespace ScriptWorkbench.Parser

open Ast Token Grammar List

variable {ts us : List Token} {eof : Token}

/-! ## One call -/

/-- A reader that returns has taken at least one token, and none that is the end of the input. -/
def Advances {α : Type} (ts : List Token) (r : Except Failure (Read α)) : Prop :=
  ∀ a rest, r = .ok (a, rest) → ∃ us, ts = us ++ rest ∧ us ≠ [] ∧ NoEnd us

section

variable {α : Type} {short : Prop} {done : List Token → α → List Token → Prop} {opened : List Token → Prop}

theorem Meets.advances {r : Except Failure (Read α)} (h : Meets short done opened ts r)
    (hdone : ∀ us a rest, done us a rest → us ≠ []) :
    Advances ts r := by
  rintro a rest rfl
  obtain ⟨us, hts, hend, hd⟩ := h
  exact ⟨us, hts, hdone us a rest hd, hend⟩

theorem Local.settles_end {f : Nat → List Token → Except Failure (Read α)} {n : Nat}
    (hf : Local f n) (heof : eof.kind = .endOfInput) (hshort : ¬short)
    (h : Meets short done opened (us ++ [eof]) (f n (us ++ [eof]))) :
    Settles f n (us ++ [eof]) := by
  refine (hf.decide _).resolve_right fun hpass => ?_
  have hinside := hpass []
  have hnot : ¬NoEnd (us ++ [eof]) := fun hend => hend eof (by simp) heof
  rw [append_nil] at hinside
  cases hr : f n (us ++ [eof]) with
  | ok r =>
    rw [hr] at h hinside
    obtain ⟨vs, hsplit, hvs, -⟩ := h
    rw [suffix_nil.1 hinside, append_nil] at hsplit
    exact hnot (hsplit ▸ hvs)
  | error e =>
    rw [hr] at h hinside
    cases e with
    | unexpected want t => exact absurd hinside not_mem_nil
    | misplaced t => exact h
    | ranOff => exact hnot h.1
    | badNumber why =>
      obtain ⟨t, ht, -⟩ := hinside
      exact absurd ht not_mem_nil
    | exhausted => exact hshort h

end

theorem statement_advances (n : Nat) (ts : List Token) : Advances ts (statement n ts) :=
  ((statementsMeet n).statement ts).advances fun _ _ _ => Forms.statement_ne_nil

theorem expression_advances (n : Nat) (ts : List Token) : Advances ts (expression n ts) :=
  (expression_meets n ts).advances fun _ _ _ h => h.1.ne_nil

theorem item_advances (n : Nat) (ts : List Token) : Advances ts (item n ts) := by
  refine (item_meets n ts).advances fun us i _ hmakes => ?_
  obtain ⟨t, vs, rfl, -⟩ := makes_head hmakes
  exact cons_ne_nil t vs

/-! ## The whole list -/

/-- What the parser may answer on a list of tokens. It returns only if there is an end of the input, runs off
only if there is none, and blames a token that is not behind the first. -/
def Ends (ts : List Token) : Except Failure Program → Prop
  | .ok _ => ¬NoEnd ts
  | .error (.unexpected _ t) | .error (.misplaced t) => ∃ us rest, ts = us ++ t :: rest ∧ NoEnd us
  | .error .ranOff => NoEnd ts
  | .error (.badNumber why) => ∃ t ∈ ts, t.kind = .number ∧ numberLiteral t.value = .error why
  | .error .exhausted => False

theorem Ends.behind {r : Except Failure Program} (h : Ends ts r) (hus : NoEnd us) (i : Item) :
    Ends (us ++ ts) (r >>= fun p => .ok (i.addTo p)) := by
  have hblamed {t : Token} (ht : ∃ vs rest, ts = vs ++ t :: rest ∧ NoEnd vs) :
      ∃ vs rest, us ++ ts = vs ++ t :: rest ∧ NoEnd vs := by
    obtain ⟨vs, rest, rfl, hvs⟩ := ht
    exact ⟨us ++ vs, rest, by rw [append_assoc], noEnd_append.2 ⟨hus, hvs⟩⟩
  cases r with
  | ok p => exact fun hall => h (noEnd_append.1 hall).2
  | error e =>
    cases e with
    | unexpected want t | misplaced t => exact hblamed h
    | ranOff => exact noEnd_append.2 ⟨hus, h⟩
    | badNumber why =>
      obtain ⟨t, ht, hnumber⟩ := h
      exact ⟨t, mem_append_right us ht, hnumber⟩
    | exhausted => exact h

theorem ends_of_itemFailure {e : Failure} {short : Prop} {opened : List Token → Prop}
    {done : List Token → Item → List Token → Prop} (h : Meets short done opened ts (.error e))
    (hshort : ¬short) (loose : Bool) : Ends ts (itemFailure loose e) := by
  cases e with
  | unexpected want t =>
    obtain ⟨us, rest, rfl, hus, -⟩ := h
    rw [itemFailure]
    split
    · split
      next ht => exact fun hall => hall t (by simp) ht
      next => exact ⟨us, rest, rfl, hus⟩
    · exact ⟨us, rest, rfl, hus⟩
  | misplaced t => exact h.elim
  | ranOff => exact h.1
  | badNumber why => exact h
  | exhausted => exact absurd h hshort

/-- **How the parser ends.** Each item takes a token at least, which is what the budget counts on. -/
theorem topLevel_ends {n : Nat} (hn : 16 * ts.length + 11 ≤ n) :
    Ends ts (topLevel n ts) := by
  induction n generalizing ts with
  | zero => omega
  | succ n ih =>
    cases ts with
    | nil => exact noEnd_nil
    | cons t ts =>
      by_cases ht : t.kind = .endOfInput
      · rw [topLevel, ht]
        exact fun hall => hall t mem_cons_self ht
      · have hmeets := item_meets n (t :: ts)
        rw [topLevel_succ ts ht]
        cases hitem : item n (t :: ts) with
        | ok r =>
          rw [hitem] at hmeets
          obtain ⟨us, hsplit, hus, hmakes⟩ := hmeets
          obtain ⟨u, us, rfl, -⟩ := makes_head hmakes
          rw [hsplit] at hn ⊢
          refine (ih ?_).behind hus r.1
          grind
        | error e =>
          rw [hitem] at hmeets
          exact ends_of_itemFailure hmeets (by omega) _

/-- **Nothing behind the end of the input is looked at.** -/
theorem topLevel_behind_end {n m : Nat} {us : List Token} {eof : Token} (hus : NoEnd us)
    (heof : eof.kind = .endOfInput) (hn : 16 * (us ++ [eof]).length + 11 ≤ n) (hm : n ≤ m)
    (tail : List Token) : topLevel m (us ++ eof :: tail) = topLevel n (us ++ [eof]) := by
  induction n generalizing us m with
  | zero => omega
  | succ n ih =>
    obtain ⟨m, rfl⟩ := Nat.exists_eq_add_one_of_ne_zero (by omega : m ≠ 0)
    cases us with
    | nil => rw [nil_append, nil_append, topLevel, topLevel, heof]
    | cons u us =>
      have hu := (noEnd_cons.1 hus).1
      have hmeets := item_meets n (u :: us ++ [eof])
      have hsettles := (stepwise_item n).toLocal.settles_end heof (by omega) hmeets
      have hsplit : u :: us ++ [eof] ++ tail = u :: (us ++ eof :: tail) := by simp
      rw [cons_append, cons_append, topLevel_succ _ hu, topLevel_succ _ hu, ← hsplit, ← cons_append]
      obtain ⟨i, vs, -, hok⟩ | ⟨e, he⟩ := hsettles
      · have hitem := hok n [] (Nat.le_refl n)
        rw [append_nil, append_nil] at hitem
        rw [hitem] at hmeets
        obtain ⟨ws, hws, hnoEnd, hmakes⟩ := hmeets
        obtain ⟨us', rfl, hbody⟩ := exists_eq_append_of_noEnd hws hnoEnd heof
        obtain ⟨w, ws, rfl, -⟩ := makes_head hmakes
        rw [hbody] at hus hn
        have hrest := @ih m us' (noEnd_append.1 hus).2 (by
          grind) (by omega)
        rw [hitem, hok m tail (by omega), append_assoc, singleton_append]
        dsimp only
        rw [hrest]
      · have hitem := he n [] (Nat.le_refl n)
        rw [append_nil] at hitem
        rw [hitem, he m tail (by omega)]

theorem budget_enough (ts : List Token) : 16 * ts.length + 11 ≤ budget ts := by
  rw [budget]
  omega

theorem parse_behind_end (hus : NoEnd us) (heof : eof.kind = .endOfInput) (tail : List Token) :
    parse (us ++ eof :: tail) = parse (us ++ [eof]) := by
  refine topLevel_behind_end hus heof (budget_enough _) ?_ tail
  simp only [budget, length_append, length_cons, length_nil]
  omega

theorem failure_of_parse {e : Failure} (heof : eof.kind = .endOfInput)
    (h : parse (us ++ [eof]) = .error e) :
    (∃ t ∈ us ++ [eof], e.found? = some t) ∨
      ∃ t ∈ us, t.kind = .number ∧ ∃ why, numberLiteral t.value = .error why ∧ e = .badNumber why := by
  have hends : Ends (us ++ [eof]) (parse (us ++ [eof])) := topLevel_ends (budget_enough _)
  rw [h] at hends
  cases e with
  | unexpected want t | misplaced t =>
    obtain ⟨vs, rest, hsplit, -⟩ := hends
    exact .inl ⟨t, by simp [hsplit], rfl⟩
  | ranOff => exact absurd heof (hends eof (by simp))
  | badNumber why =>
    obtain ⟨t, ht, hkind, hwhy⟩ := hends
    obtain hmem | hlast := mem_append.1 ht
    · exact .inr ⟨t, hmem, hkind, why, hwhy, rfl⟩
    · rw [mem_singleton.1 hlast, heof] at hkind
      cases hkind
  | exhausted => exact hends.elim

/-- **The parser stays within its tokens and ends.** If a list has an end of the input, then nothing behind
the first one makes a difference, and a failure names a token up to that one or comes from a number token
before it whose text is no number; and the list of a scanned source is such a list. Every item of a program,
every statement and every expression that is read from any list, with any budget, takes at least one token and
none from the first end of the input on; and no list whatsoever exhausts the budget. -/
theorem parse_within_tokens :
    (∀ us eof tail, NoEnd us → eof.kind = .endOfInput →
      parse (us ++ eof :: tail) = parse (us ++ [eof]) ∧
        ∀ e, parse (us ++ eof :: tail) = .error e →
          (∃ t ∈ us ++ [eof], e.found? = some t) ∨
            ∃ t ∈ us, t.kind = .number ∧ ∃ why, numberLiteral t.value = .error why ∧ e = .badNumber why) ∧
      (∀ source ts, scan source = .ok ts → ∃ us eof, ts = us ++ [eof] ∧ NoEnd us ∧ eof.kind = .endOfInput) ∧
      (∀ n ts, Advances ts (item n ts) ∧ Advances ts (statement n ts) ∧ Advances ts (expression n ts)) ∧
      ∀ ts, parse ts ≠ .error .exhausted := by
  refine ⟨fun us eof tail hus heof => ?_, fun source ts h => scanFrom_closed h,
    fun n ts => ⟨item_advances n ts, statement_advances n ts, expression_advances n ts⟩,
    fun ts h => ?_⟩
  · rw [parse_behind_end hus heof]
    exact ⟨rfl, fun e => failure_of_parse heof⟩
  · have hends : Ends ts (parse ts) := topLevel_ends (budget_enough _)
    rw [h] at hends
    exact hends

/-- A main block that is still open at the end of the input, although it is closed behind that. -/
theorem parse_within_tokens_open_block :
    parse ([someToken .mainWord, someToken .leftBrace] ++
        someToken .endOfInput :: [someToken .rightBrace, someToken .endOfInput]) =
      .error (.unexpected .expression (someToken .endOfInput)) :=
  (parse_within_tokens.1 [someToken .mainWord, someToken .leftBrace] _ _ (by simp [someToken]) rfl).1

end ScriptWorkbench.Parser
