/-
What the tokens of a source look like.

The scanner gives a token its kind and its text at once, so the one tells something about the other.
-/
import ScriptWorkbench.Token.Scan

namespace ScriptWorkbench

open Token

/-- A token that is not the end of the input has the text of its kind. -/
inductive Formed : Token → Prop where
  | mark {t : Token} : t.kind ∉ [.identifier, .number, .text, .endOfInput] → Formed t
  | name {t : Token} {c : Char} {cs : List Char} :
      t.kind = .identifier → t.value.toList = c :: cs →
      (Text.isLetter c || c == '_') = true → (∀ d ∈ cs, isNameChar d = true) → Formed t
  | number {t : Token} :
      t.kind = .number → (∀ c ∈ t.value.toList, Text.isDigit c = true ∨ c = '.') → Formed t
  | text {t : Token} : t.kind = .text → Formed t

theorem Formed.ne_end {t : Token} (h : Formed t) : t.kind ≠ .endOfInput := by
  cases h with
  | mark hkind => exact fun heq => hkind (by rw [heq]; decide)
  | name hkind | number hkind | text hkind => rw [hkind]; decide

theorem mem_of_lookup {α β : Type} [BEq α] [LawfulBEq α] {a : α} {b : β} {l : List (α × β)}
    (h : l.lookup a = some b) : (a, b) ∈ l := by
  obtain ⟨l₁, l₂, rfl, -⟩ := List.lookup_eq_some_iff.1 h
  exact List.mem_append_right l₁ List.mem_cons_self

theorem wordKind_cases (word : String) :
    wordKind word = .identifier ∨ wordKind word ∉ [Kind.identifier, .number, .text, .endOfInput] := by
  have hall : ∀ x ∈ keywords, x.2 ∉ [Kind.identifier, .number, .text, .endOfInput] := by decide
  rw [wordKind]
  cases h : keywords.lookup word with
  | none => exact .inl rfl
  | some kind => exact .inr (hall _ (mem_of_lookup h))

theorem bind_eq_ok {ε α β : Type} {r : Except ε α} {f : α → Except ε β} {b : β}
    (h : (r >>= f) = .ok b) : ∃ a, r = .ok a ∧ f a = .ok b := by
  cases r with
  | error e => cases h
  | ok a => exact ⟨a, rfl, h⟩

theorem map_eq_ok {ε α β : Type} {r : Except ε α} {f : α → β} {b : β} (h : r.map f = .ok b) :
    ∃ a, r = .ok a ∧ f a = b := by
  cases r with
  | error e => cases h
  | ok a => exact ⟨a, rfl, Except.ok.inj h⟩

theorem map_eq_error {ε α β : Type} {r : Except ε α} {f : α → β} {e : ε} (h : r.map f = .error e) :
    r = .error e := by
  cases r with
  | error _ => cases h; rfl
  | ok a => cases h

theorem eq_ok_of_toOption {α β : Type} {r : Except α β} {b : β} (h : r.toOption = some b) :
    r = .ok b := by
  cases r with
  | error _ => cases h
  | ok _ => exact congrArg Except.ok (Option.some.inj h)

theorem exists_eq_ok {α β : Type} {r : Except α β} (h : r.toOption.isSome = true) : ∃ b, r = .ok b := by
  obtain ⟨b, hb⟩ := Option.isSome_iff_exists.1 h
  exact ⟨b, eq_ok_of_toOption hb⟩

/-- A run that is seen to return, and to leave a state of some kind. -/
theorem exists_run_eq_ok {α ε σ : Type} {P : σ → Prop} {r : Except ε α × σ}
    (h : r.1.toOption.isSome = true ∧ P r.2) : ∃ a s, r = (.ok a, s) ∧ P s := by
  obtain ⟨a, ha⟩ := exists_eq_ok h.1
  exact ⟨a, r.2, Prod.ext ha rfl, h.2⟩

theorem exists_eq_ok_of_map {α β γ : Type} {r : Except α β} (f : β → γ) {c : γ}
    (h : r.toOption.map f = some c) : ∃ b, r = .ok b ∧ f b = c := by
  obtain ⟨b, hb, hc⟩ := Option.map_eq_some_iff.1 h
  exact ⟨b, eq_ok_of_toOption hb, hc⟩

end ScriptWorkbench
