/-
Runs of digits: one ends where something else stands, and the digits of a number are read as that number.
-/
import ScriptWorkbench.Number.Read

namespace ScriptWorkbench

open List String

theorem takeWhile_append_of_stop {p : Char → Bool} {cs rest : List Char}
    (hcs : ∀ c ∈ cs, p c = true) (hrest : ∀ c ∈ rest.head?, p c = false) :
    (cs ++ rest).takeWhile p = cs ∧ (cs ++ rest).dropWhile p = rest := by
  rw [takeWhile_append_of_pos hcs, dropWhile_append_of_pos hcs]
  cases rest with
  | nil => exact ⟨append_nil cs, rfl⟩
  | cons c rest =>
    have hc : ¬p c = true := by simp [hrest c rfl]
    rw [takeWhile_cons_of_neg hc, dropWhile_cons_of_neg hc, append_nil]
    exact ⟨rfl, rfl⟩

namespace Number

variable {ds : List Char} {c : Char}

/-! ## The digits of a number -/

theorem isDigit_toDigits (n : Nat) : ∀ c ∈ Nat.toDigits 10 n, c.isDigit = true := fun _ hc =>
  Nat.isDigit_of_mem_toDigits (by decide) (by decide) hc

theorem head?_toDigits_append (n : Nat) (rest : List Char) :
    (Nat.toDigits 10 n ++ rest).head? = (Nat.toDigits 10 n).head? := by
  obtain ⟨d, ds, hds⟩ := exists_cons_of_ne_nil (Nat.toDigits_ne_nil (n := n) (b := 10))
  rw [hds]
  rfl

theorem head?_toDigits_ne_zero {n : Nat} (hn : 0 < n) : (Nat.toDigits 10 n).head? ≠ some '0' := by
  induction n using Nat.strongRecOn with
  | ind n ih =>
    by_cases hlt : n < 10
    · have hall : ∀ d < 10, 0 < d → (Nat.digitChar d) ≠ '0' := by decide
      rw [Nat.toDigits_of_lt_base hlt]
      intro h
      exact hall n hlt hn (Option.some.inj h)
    · rw [Nat.toDigits_of_base_le (by decide) (by omega), head?_toDigits_append]
      exact ih (n / 10) (by omega) (by omega)

theorem digitsValue_toDigits (n : Nat) : digitsValue (Nat.toDigits 10 n) = n := by
  exact Nat.ofDigitChars_ten_toDigits

/-! ## Reading digits -/

theorem digitRun_of_digits (h : ∀ c ∈ ds, c.isDigit = true) :
    digitRun false ds = some (ds, []) := by
  induction ds with
  | nil => rfl
  | cons c ds ih =>
    have hc : c.isDigit = true := h c mem_cons_self
    have hne : c ≠ '_' := by
      rintro rfl
      exact absurd hc (by decide)
    rw [digitRun, if_neg hne, if_pos hc, ih fun d hd => h d (mem_cons_of_mem c hd)]
    rfl

theorem plainChar_of_lt (h : c.toNat < 127) : plainChar c = c := if_pos h

theorem map_plainChar_of_digits (h : ∀ d ∈ ds, d.isDigit = true) :
    ds.map plainChar = ds := by
  refine (map_congr_left fun d hd => ?_).trans (map_id _)
  have hd : 48 ≤ d.toNat ∧ d.toNat ≤ 57 := Char.isDigit_iff_toNat.1 (h d hd)
  exact plainChar_of_lt (by omega)

theorem readInt_of_splitSign {text : String} {negative : Bool}
    (hsign : splitSign ((text.toList.map plainChar).dropWhile isPadding) =
      (negative, ds)) (hne : ds ≠ []) (h : ∀ d ∈ ds, d.isDigit = true)
    (hlen : ds.length ≤ maxDigits) :
    readInt text = .ok (if negative then -(digitsValue ds : Int) else (digitsValue ds : Int)) := by
  rw [readInt, hsign]
  dsimp only
  split
  next cs => exact absurd (h '_' mem_cons_self) (by decide)
  next =>
    have hempty : ds.isEmpty = false := isEmpty_eq_false_iff.2 hne
    rw [digitRun_of_digits h]
    dsimp only
    rw [if_neg (by omega), hempty]
    rfl

theorem isPadding_of_isDigit (h : c.isDigit = true) : isPadding c = false := by
  have hc : 48 ≤ c.toNat ∧ c.toNat ≤ 57 := Char.isDigit_iff_toNat.1 h
  have hne : c ≠ ' ' := by
    rintro rfl
    exact absurd hc.1 (by decide)
  simp [isPadding, hne]
  omega

theorem splitSign_of_isDigit (h : c.isDigit = true) (cs : List Char) :
    splitSign (c :: cs) = (false, c :: cs) := by
  rw [splitSign]
  · rintro cs ⟨⟩
    exact absurd h (by decide)
  · rintro cs ⟨⟩
    exact absurd h (by decide)

theorem readInt_ofList (h : ∀ d ∈ c :: ds, d.isDigit = true) (hlen : (c :: ds).length ≤ maxDigits) :
    readInt (ofList (c :: ds)) = .ok (digitsValue (c :: ds) : Nat) := by
  have hc : c.isDigit = true := h c mem_cons_self
  have hdrop : (c :: ds).dropWhile isPadding = c :: ds :=
    dropWhile_cons_of_neg (by simp [isPadding_of_isDigit hc])
  have hread : splitSign (((ofList (c :: ds)).toList.map plainChar).dropWhile
      isPadding) = (false, c :: ds) := by
    rw [toList_ofList, map_plainChar_of_digits h, hdrop, splitSign_of_isDigit hc]
  exact readInt_of_splitSign hread (cons_ne_nil c ds) h hlen

/-! ## Reading digits around a point -/

theorem dropUnderscores_of_not_mem {cs : List Char} (h : '_' ∉ cs) {last : Char} (hlast : last ≠ '_') :
    dropUnderscores last cs = some cs := by
  induction cs generalizing last with
  | nil => rw [dropUnderscores, if_neg hlast]
  | cons c cs ih =>
    rw [mem_cons, not_or] at h
    have hc : ¬c = '_' := fun heq => h.1 heq.symm
    have hpair : ¬(decide (last = '_') && !c.isDigit) = true := by simp [hlast]
    rw [dropUnderscores, if_neg hc, if_neg hpair, ih h.2 hc]
    rfl

theorem dropAround_of_forall {p : Char → Bool} {cs : List Char} (h : ∀ c ∈ cs, p c = false) :
    Text.dropAround p cs = cs := by
  have hdrop {l : List Char} (hl : ∀ c ∈ l, p c = false) : l.dropWhile p = l :=
    (@takeWhile_append_of_stop p [] l (fun c hc => absurd hc not_mem_nil)
      fun c hc => hl c (mem_of_head? hc)).2
  rw [Text.dropAround, Text.dropEndWhile, hdrop h, hdrop fun c hc => h c (mem_reverse.1 hc), reverse_reverse]

theorem readReal_ofList {es : List Char} (h : ∀ d ∈ c :: ds, d.isDigit = true)
    (hes : ∀ d ∈ es, d.isDigit = true) :
    readReal (ofList (c :: ds ++ '.' :: es)) =
      .ok (.ofDecimal false (digitsValue (c :: ds ++ es)) (-es.length)) := by
  have hc : c.isDigit = true := h c mem_cons_self
  -- digits and points are neither padding nor underscores, and stay as they are
  have hchars : ∀ d ∈ c :: ds ++ '.' :: es, d.isDigit = true ∨ d = '.' := by
    refine forall_mem_append.2 ⟨fun d hd => .inl (h d hd), ?_⟩
    exact forall_mem_cons.2 ⟨.inr rfl, fun d hd => .inl (hes d hd)⟩
  have hplain : (c :: ds ++ '.' :: es).map plainChar = c :: ds ++ '.' :: es := by
    rw [map_append, map_plainChar_of_digits h, map_cons, map_plainChar_of_digits hes]
    rfl
  have haround : Text.dropAround isPadding (c :: ds ++ '.' :: es) = c :: ds ++ '.' :: es := by
    refine dropAround_of_forall fun d hd => ?_
    obtain hd | rfl := hchars d hd
    · exact isPadding_of_isDigit hd
    · rfl
  have hunderscore : '_' ∉ c :: ds ++ '.' :: es := by
    intro hmem
    obtain hd | hd := hchars '_' hmem
    · exact absurd hd (by decide)
    · exact absurd hd (by decide)
  have hmagnitude : readMagnitude false (c :: ds ++ '.' :: es) =
      some (.ofDecimal false (digitsValue (c :: ds ++ es)) (-es.length)) := by
    have hword {w : String} {x : Char} (hw : w.toList.head? = some x)
        (hx : ∀ n < 58, (Char.ofNat n).toLower ≠ x) :
        ¬ofList ((c :: ds ++ '.' :: es).map Char.toLower) = w := by
      rintro rfl
      have hn := hx c.toNat (Nat.lt_succ_of_le (Char.isDigit_iff_toNat.1 hc).2)
      rw [Char.ofNat_toNat] at hn
      rw [toList_ofList] at hw
      exact hn (Option.some.inj hw)
    have hwhole := @takeWhile_append_of_stop _ _ ('.' :: es) h (by rintro _ ⟨⟩; rfl)
    have hfraction := @takeWhile_append_of_stop _ _ [] hes (by rintro _ ⟨⟩)
    rw [append_nil] at hfraction
    rw [readMagnitude]
    rw [if_neg (not_or.2 ⟨hword (x := 'i') (by decide) (by decide), hword (x := 'i') (by decide) (by decide)⟩),
      if_neg (hword (x := 'n') (by decide) (by decide)), hwhole.1, hwhole.2, splitFraction, hfraction.1,
      hfraction.2]
    simp [readExponent]
  rw [readReal, toList_ofList, hplain, haround, dropUnderscores_of_not_mem hunderscore (by decide)]
  dsimp only
  rw [cons_append, splitSign_of_isDigit hc]
  rw [← cons_append, hmagnitude]

end Number

end ScriptWorkbench
