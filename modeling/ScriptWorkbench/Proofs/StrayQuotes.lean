/-
Quotes inside of strings.

A string is closed only by the quote that opened it, and may hold the other one. Colouring does not follow
strings, it counts the quotes before a match, so an odd number of stray quotes turns inside and outside round
(`highlight_eq_iff`).
-/
import ScriptWorkbench.Studio.Highlight

namespace ScriptWorkbench.Studio

open List

/-! ## Stray quotes -/

/-- Whether a quote stands in a string that the other quote opened. -/
def isStray (before quote : Option Char) (c : Char) : Bool :=
  countsAsQuote before c && quote.isSome && quote != some c

def strays (before quote : Option Char) : List Char → Nat
  | [] => 0
  | c :: rest => (isStray before quote c).toNat + strays (some c) (nextQuote before quote c) rest

theorem isSome_nextQuote (before quote : Option Char) (c : Char) (odd : Bool) :
    (if countsAsQuote before c then !(quote.isSome ^^ odd) else quote.isSome ^^ odd) =
      ((nextQuote before quote c).isSome ^^ (odd ^^ isStray before quote c)) := by
  cases quote with
  | none => cases h : countsAsQuote before c <;> simp [nextQuote, isStray, h]
  | some q =>
    cases h : countsAsQuote before c
    · simp [nextQuote, isStray, h]
    · by_cases hq : c = q
      · subst hq
        simp [nextQuote, isStray, h]
      · have hne : (some q != some c) = true := by simpa using Ne.symm hq
        simp [nextQuote, isStray, h, hq, hne]

/-- Quotes toggle what is inside, and stray quotes toggle what was told wrongly. -/
theorem oddQuotes_eq (cs : List Char) (before quote : Option Char) (odd : Bool) :
    oddQuotes before (quote.isSome ^^ odd) cs =
      ((openQuoteFrom before quote cs).isSome ^^ (odd ^^ strays before quote cs % 2 == 1)) := by
  induction cs generalizing before quote odd with
  | nil => simp [oddQuotes, openQuoteFrom, strays]
  | cons c cs ih =>
    rw [oddQuotes, isSome_nextQuote, ih, openQuoteFrom, strays]
    cases isStray before quote c
    · simp
    · have hnext (n : Nat) : ((1 + n) % 2 == 1) = !(n % 2 == 1) := by grind
      simp [hnext]

theorem strays_take {cs : List Char} {before quote : Option Char} (h : strays before quote cs = 0) (n : Nat) :
    strays before quote (cs.take n) = 0 := by
  induction cs generalizing before quote n with
  | nil => simpa using h
  | cons c cs ih =>
    rw [strays, Nat.add_eq_zero_iff] at h
    cases n with
    | zero => rfl
    | succ n => rw [take_succ_cons, strays, h.1, ih h.2]

/-- The first stray quote leaves an odd number of them behind it. -/
theorem strays_eq_zero {cs : List Char} {before quote : Option Char}
    (h : ∀ n ≤ cs.length, strays before quote (cs.take n) % 2 ≠ 1) : strays before quote cs = 0 := by
  induction cs generalizing before quote with
  | nil => rfl
  | cons c cs ih =>
    have hc : (isStray before quote c).toNat = 0 := by
      have hfirst := h 1 (Nat.succ_le_succ (Nat.zero_le _))
      cases hc : isStray before quote c
      · rfl
      · simp [strays, hc] at hfirst
    rw [strays, hc, ih]
    intro n hn
    simpa [strays, hc] using h (n + 1) (Nat.succ_le_succ hn)

theorem insideString_eq (line : List Char) (place : Nat) : insideString line place =
    ((openQuote line place).isSome ^^ strays none none (line.take place) % 2 == 1) := by
  simpa [insideString, openQuote] using oddQuotes_eq (line.take place) none none false

/-! ## Colouring by what is outside -/

/-- The formats of a rule, given which places lie outside of strings. -/
def Rule.spansBy (outside : Nat → Bool) (table : Text.NameTable) (t : Theme) (line : List Char) (r : Rule) :
    Except HighlightError (List Span) := do
  let pattern ← (Pattern.read table .none r.pattern.toList).mapError (.unreadable r.pattern)
  let found := pattern.findAll line
  if found.any (·.isBroken) then .error .broken
  else .ok ((found.filter fun m => r.forStrings || outside m.first).map (r.span t))

def highlightBy (outside : Nat → Bool) (table : Text.NameTable) (t : Theme) (rules : List Rule) (line : String) :
    Except HighlightError (List Span) := do
  let parts ← rules.mapM (Rule.spansBy outside table t line.toList)
  pure parts.flatten

theorem highlight_eq_highlightBy (table : Text.NameTable) (t : Theme) (rules : List Rule) (line : String) :
    highlight table t rules line =
      highlightBy (fun place => !insideString line.toList place) table t rules line :=
  rfl

/-! ## The rule that matches everywhere -/

section Everywhere

open Pattern

theorem findAllFrom_nothing (cs : List Char) (budget : Nat) (p : Place) (hp : p.rest = cs) (hmarks : p.marks = [])
    (h : cs.length < budget) : findAllFrom .nothing budget true p =
      (range' (p.position + 1) cs.length).map fun n => ⟨n, n, []⟩ := by
  induction cs generalizing budget p with
  | nil =>
    obtain ⟨budget, rfl⟩ := Nat.exists_eq_add_one_of_ne_zero (Nat.ne_of_gt h)
    simp [findAllFrom, searchFrom, matchAt, run, hp]
  | cons c cs ih =>
    obtain ⟨budget, rfl⟩ := Nat.exists_eq_add_one_of_ne_zero (Nat.ne_of_gt (Nat.zero_lt_of_lt h))
    have hsearch : searchFrom .nothing true (c :: cs) p =
        some (⟨p.position + 1, p.position + 1, []⟩, p.step c cs) := by
      cases cs <;> simp [searchFrom, matchAt, run, Place.step, hmarks]
    rw [findAllFrom, hp, hsearch]
    simpa [range'_succ, Place.step] using ih budget (p.step c cs) rfl hmarks (Nat.lt_of_succ_lt_succ h)

theorem findAll_nothing (cs : List Char) :
    findAll .nothing cs = (range' 0 (cs.length + 1)).map fun n => ⟨n, n, []⟩ := by
  have hsearch : searchFrom .nothing false cs (.ofText cs) = some (⟨0, 0, []⟩, .ofText cs) := by
    cases cs <;> simp [searchFrom, matchAt, run, Place.ofText]
  have hrest := findAllFrom_nothing cs (2 * cs.length + 1) (.ofText cs) rfl rfl (by omega)
  rw [findAll, findAllFrom, show (Place.ofText cs).rest = cs from rfl, hsearch]
  simpa [range'_succ, Place.ofText] using hrest

def everywhere : Rule := ⟨"", "", ""⟩

theorem spansBy_everywhere (outside : Nat → Bool) (table : Text.NameTable) (t : Theme) (line : List Char) :
    everywhere.spansBy outside table t line =
      .ok (((range' 0 (line.length + 1)).filter outside).map fun n => everywhere.span t ⟨n, n, []⟩) := by
  change (if (findAll .nothing line).any (·.isBroken) then Except.error HighlightError.broken
    else .ok (((findAll .nothing line).filter fun m => outside m.first).map (everywhere.span t))) = _
  rw [findAll_nothing, if_neg (by simp [Found.isBroken, Found.crosses]), filter_map, map_map]
  rfl

theorem highlightBy_everywhere (outside : Nat → Bool) (table : Text.NameTable) (t : Theme) (line : String) :
    (highlightBy outside table t [everywhere] line).map (·.map Span.start) =
      .ok ((range' 0 (line.toList.length + 1)).filter outside) := by
  have hparts : highlightBy outside table t [everywhere] line =
      (everywhere.spansBy outside table t line.toList).map fun spans => [spans].flatten := by
    rw [highlightBy, mapM_cons]
    cases everywhere.spansBy outside table t line.toList <;> rfl
  rw [hparts, spansBy_everywhere]
  simp [Except.map, Rule.span, Function.comp_def]

end Everywhere

/-- **What counts as outside.** A match applies if it starts outside of the strings of the line and an even number of
stray quotes comes before it, or inside and an odd number. So all rules colour a line as its strings demand exactly
when no quote is stray. -/
theorem highlight_eq_iff (table : Text.NameTable) (t : Theme) (line : String) :
    (∀ r m, Rule.applies r line.toList m = (r.forStrings ||
      ((openQuote line.toList m.first).isNone ^^ strays none none (line.toList.take m.first) % 2 == 1))) ∧
    ((∀ rules, highlight table t rules line =
        highlightBy (fun place => (openQuote line.toList place).isNone) table t rules line) ↔
      strays none none line.toList = 0) := by
  refine ⟨fun r m => ?_, fun h => strays_eq_zero fun n hn hodd => ?_, fun h rules => ?_⟩
  · rw [Rule.applies, insideString_eq]
    cases openQuote line.toList m.first <;> simp
  · have hplaces := congrArg (·.map (·.map Span.start)) (h [everywhere])
    simp only [highlight_eq_highlightBy, highlightBy_everywhere, Except.ok.injEq] at hplaces
    have hiff := congrArg (n ∈ ·) hplaces
    simp only [List.mem_filter, List.mem_range'_1, insideString_eq, hodd] at hiff
    cases hquote : openQuote line.toList n <;> simp [hquote] at hiff <;> omega
  · have houtside (place : Nat) : (!insideString line.toList place) = (openQuote line.toList place).isNone := by
      rw [insideString_eq, strays_take h]
      simp
    simp only [highlight_eq_highlightBy, houtside]

theorem highlight_after_stray :
    highlight .empty default [⟨"if", "", ""⟩] "\"it's\" if" = .ok [] ∧
    highlightBy (fun place => (openQuote "\"it's\" if".toList place).isNone) .empty default [⟨"if", "", ""⟩]
      "\"it's\" if" =
      .ok [⟨7, 2, Theme.plainColor, false, false⟩] :=
  ⟨rfl, rfl⟩

end ScriptWorkbench.Studio
