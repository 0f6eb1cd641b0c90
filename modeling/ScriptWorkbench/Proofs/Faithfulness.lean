/-
Expressions of a source, written in the target language and read back.

The trees that the parser makes of scanned tokens are of the kind the emitter's theory speaks of: their names
have the characters of the script language's identifiers, their numbers have no sign, and their operators are
known. So the theory applies to every expression of every source (`reads_render_iff`).
-/
import ScriptWorkbench.Proofs.Emission
import ScriptWorkbench.Proofs.Tiling

namespace ScriptWorkbench.Target

open Ast Text Token Grammar List

variable {us : List Token} {c : Char} {text : String} {cs : List Char}

/-! ## Numbers without a sign -/

theorem decimalValue?_lt {d : Nat} (h : decimalValue? c = some d) : d < 10 := by
  rw [decimalValue?] at h
  split at h
  · split at h
    next hc =>
      cases h
      have hdigit : 48 ≤ c.toNat ∧ c.toNat ≤ 57 := Char.isDigit_iff_toNat.1 hc
      omega
    next => cases h
  · obtain ⟨z, hz, rfl⟩ := Option.map_eq_some_iff.1 h
    have hrange := find?_some hz
    simp only [Bool.and_eq_true, decide_eq_true_eq] at hrange
    omega

theorem plainChar_eq_minus (h : Number.plainChar c = '-') : c = '-' := by
  unfold Number.plainChar at h
  split at h
  · exact h
  · split at h
    · exact absurd h (by decide)
    · have hdigits : ∀ d < 10, Nat.digitChar d ≠ '-' := by decide
      split at h
      next d hd => exact absurd h (hdigits d (decimalValue?_lt hd))
      next => exact absurd h (by decide)

theorem splitSign_of_not_mem (h : '-' ∉ cs) :
    (Number.splitSign cs).1 = false := by
  unfold Number.splitSign
  split
  · exact absurd mem_cons_self h
  · rfl
  · rfl

theorem readInt_unsigned {v : Int} (h : '-' ∉ text.toList) (hv : Number.readInt text = .ok v) :
    ∃ n : Nat, v = n := by
  have hplain : '-' ∉ (text.toList.map Number.plainChar).dropWhile Number.isPadding := by
    intro hmem
    obtain ⟨c, hc, heq⟩ := mem_map.1 ((dropWhile_suffix _).subset hmem)
    exact h (plainChar_eq_minus heq ▸ hc)
  have hsign := splitSign_of_not_mem hplain
  unfold Number.readInt at hv
  generalize Number.splitSign _ = split at hv hsign
  obtain ⟨negative, cs⟩ := split
  subst hsign
  dsimp only at hv
  split at hv
  · cases hv
  · split at hv
    · cases hv
    · split at hv
      · cases hv
      · split at hv
        · cases hv
        · cases hv
          exact ⟨_, rfl⟩

theorem mem_of_dropUnderscores {last : Char} {ds : List Char}
    (h : Number.dropUnderscores last cs = some ds) (hc : c ∈ ds) : c ∈ cs := by
  fun_induction Number.dropUnderscores last cs generalizing ds with
  | case1 | case4 | case5 => cases h
  | case2 => cases h; exact absurd hc not_mem_nil
  | case3 last cs _ ih => exact mem_cons_of_mem _ (ih h hc)
  | case6 last d cs _ _ ih =>
    obtain ⟨es, hes, rfl⟩ := Option.map_eq_some_iff.1 h
    rcases mem_cons.1 hc with rfl | hc
    · exact mem_cons_self
    · exact mem_cons_of_mem _ (ih hes hc)

theorem ofRatio_unsigned (num den : Nat) :
    Unsigned (.real (Number.Binary64.ofRatio false num den)) := by
  have hend : ∀ me : Nat × Int, Unsigned (.real
      (if me.2 > Number.Binary64.maxExponent then .infinite false else .finite false me.1 me.2)) := by
    intro me
    split
    · exact .infinite
    · exact .finite _ _
  unfold Number.Binary64.ofRatio
  split
  · exact .finite _ _
  · extract_lets e
    -- The significand is made a variable, lest its comparison with a power of two be computed.
    generalize Number.scaleByTwo num den e = parts
    obtain ⟨n, d⟩ := parts
    dsimp only
    split
    · exact hend (_, _)
    · exact hend (_, _)

theorem ofDecimal_unsigned (digits : Nat) (exponent : Int) :
    Unsigned (.real (Number.Binary64.ofDecimal false digits exponent)) := by
  unfold Number.Binary64.ofDecimal
  dsimp only
  split
  · exact .finite _ _
  · split
    · exact .infinite
    · split
      · exact .finite _ _
      · split
        · exact ofRatio_unsigned _ _
        · exact ofRatio_unsigned _ _

theorem readMagnitude_unsigned {x : Number.Binary64} (h : Number.readMagnitude false cs = some x) :
    Unsigned (.real x) := by
  unfold Number.readMagnitude at h
  dsimp only at h
  split at h
  · cases h; exact .infinite
  · split at h
    · cases h; exact .nan
    · split at h
      · cases h
      · obtain ⟨e, -, rfl⟩ := Option.map_eq_some_iff.1 h
        exact ofDecimal_unsigned _ _

theorem readReal_unsigned {x : Number.Binary64} (h : '-' ∉ text.toList)
    (hx : Number.readReal text = .ok x) : Unsigned (.real x) := by
  have hplain : '-' ∉ dropAround Number.isPadding (text.toList.map Number.plainChar) := by
    intro hmem
    rw [dropAround, dropEndWhile, mem_reverse] at hmem
    have hmem := mem_reverse.1 ((dropWhile_suffix _).subset hmem)
    obtain ⟨c, hc, heq⟩ := mem_map.1 ((dropWhile_suffix _).subset hmem)
    exact h (plainChar_eq_minus heq ▸ hc)
  unfold Number.readReal at hx
  dsimp only at hx
  split at hx
  · cases hx
  next cs hcs =>
    have hsign := splitSign_of_not_mem fun hmem => hplain (mem_of_dropUnderscores hcs hmem)
    generalize Number.splitSign cs = parts at hx hsign
    obtain ⟨negative, ds⟩ := parts
    subst hsign
    split at hx
    next y hy =>
      cases hx
      exact readMagnitude_unsigned hy
    next => cases hx

theorem numberLiteral_unsigned {v : Literal} (h : '-' ∉ text.toList)
    (hv : Parser.numberLiteral text = .ok v) : Unsigned v := by
  rw [Parser.numberLiteral] at hv
  split at hv
  · obtain ⟨x, hx, rfl⟩ := map_eq_ok hv
    exact readReal_unsigned h hx
  · obtain ⟨x, hx, rfl⟩ := map_eq_ok hv
    obtain ⟨n, rfl⟩ := readInt_unsigned h hx
    exact .int n

/-! ## Names -/

theorem startsName_of_isLetter (h : (isLetter c || c == '_') = true) :
    128 ≤ c.toNat ∨ startsName c = true := by
  by_cases hbig : 128 ≤ c.toNat
  · exact .inl hbig
  · right
    have hsmall : c.toNat < 128 := by omega
    rw [isLetter, hasProperty_ascii hsmall] at h
    rw [startsName_ascii hsmall]
    exact h

theorem continuesName_of_isNameChar (h : isNameChar c = true) :
    128 ≤ c.toNat ∨ continuesName c = true := by
  by_cases hbig : 128 ≤ c.toNat
  · exact .inl hbig
  · right
    have hsmall : c.toNat < 128 := by omega
    simp only [isNameChar, isAlphanumeric, isLetter, isNumeral, isDigit,
      isDecimal, decimalValue?, hasProperty_ascii hsmall, if_pos hsmall,
      Bool.or_eq_true, beq_iff_eq] at h
    simp only [continuesName, startsName_ascii hsmall, hasProperty_ascii hsmall, Bool.or_eq_true, beq_iff_eq]
    rcases h with (hletter | ((hdigit | hno) | hno)) | hline
    · exact .inl (.inl hletter)
    · split at hdigit
      next hd => exact .inr hd
      next => cases hdigit
    · cases hno
    · cases hno
    · exact .inl (.inr hline)

theorem wordlike_of_formed {t : Token} (h : Formed t) (hkind : t.kind = .identifier) :
    Wordlike t.value.toList := by
  cases h with
  | mark hne => exact absurd (by rw [hkind]; decide) hne
  | name _ hvalue hc hcs =>
    rw [hvalue]
    exact ⟨startsName_of_isLetter hc, fun d hd => continuesName_of_isNameChar (hcs d hd)⟩
  | number hnumber => rw [hnumber] at hkind; cases hkind
  | text htext => rw [htext] at hkind; cases hkind

theorem not_mem_minus_of_formed {t : Token} (h : Formed t) (hkind : t.kind = .number) :
    '-' ∉ t.value.toList := by
  cases h with
  | mark hne => exact absurd (by rw [hkind]; decide) hne
  | name hname => rw [hname] at hkind; cases hkind
  | number _ hdigits =>
    intro hmem
    rcases hdigits '-' hmem with hdigit | hdot
    · exact absurd hdigit (by decide)
    · exact absurd hdot (by decide)
  | text htext => rw [htext] at hkind; cases hkind

/-! ## What the parser produces -/

def subjectOf : Phrase → Subject
  | .level _ e => .one e
  | .signed e => .one e
  | .applied e => .one e
  | .primary e => .one e
  | .items es => .all es

theorem ne_other_of_operator {k : Nat} {kind : Kind} {op : BinaryOp} (h : Operator k kind op) :
    ∀ text, op ≠ .other text := by
  cases h <;> nofun

theorem produced_of_derives {phrase : Phrase} (h : Derives phrase us) (hus : ∀ t ∈ us, Formed t) :
    Produced (subjectOf phrase) := by
  induction h with
  | signed _ ih | tighter _ _ ih | applied _ ih | primary _ ih => exact ih hus
  | operator _ hop _ ihl ihr =>
    exact .binary (ne_other_of_operator hop) (ihl (by grind)) (ihr (by grind))
  | sign _ _ ih => exact .unary _ (ih (by grind))
  | callNothing _ _ _ ih => exact .call (ih (by grind)) .nothing
  | call _ _ _ _ ihc ihes => exact .call (ihc (by grind)) (ihes (by grind))
  | field _ _ hu ih => exact .field (ih (by grind)) (wordlike_of_formed (hus _ (by simp)) hu)
  | index _ _ _ _ iht ihi => exact .index (iht (by grind)) (ihi (by grind))
  | number ht hv =>
    exact .literal (numberLiteral_unsigned (not_mem_minus_of_formed (hus _ (by simp)) ht) hv)
  | text => exact .literal (.text _)
  | true => exact .literal (.truth true)
  | false => exact .literal (.truth false)
  | name ht => exact .name (wordlike_of_formed (hus _ (by simp)) ht)
  | this => exact .this
  | group _ _ _ ih => exact ih (by grind)
  | listNothing => exact .list .nothing
  | list _ _ _ ih => exact .list (ih (by grind))
  | one _ ih => exact .more (ih hus) .nothing
  | more _ _ _ ihe ihes => exact .more (ihe (by grind)) (ihes (by grind))

theorem produced_of_source {e : Expr} (h : Source e us) (hus : ∀ t ∈ us, Formed t) :
    Produced (.one e) := by
  cases h with
  | value he => exact produced_of_derives he hus
  | range ha _ hb =>
    obtain ⟨hl, hr⟩ := forall_mem_append.1 hus
    exact .range (produced_of_derives ha hl) (produced_of_derives hb (forall_mem_cons.1 hr).2)

theorem formed_of_taken {source : String} {tokens ts rest : List Token}
    (hscan : scan source = .ok tokens) (hsuffix : ts <:+ tokens) (hts : ts = us ++ rest)
    (hus : NoEnd us) : ∀ t ∈ us, Formed t := by
  obtain ⟨body, eof, rfl, hbody, heof⟩ := scanFrom_formed hscan
  intro t ht
  have hmem : t ∈ body ++ [eof] := hsuffix.subset (by rw [hts]; exact mem_append_left rest ht)
  rcases mem_append.1 hmem with hmem | hmem
  · exact hbody t hmem
  · rw [mem_singleton.1 hmem] at ht
    exact absurd heof (hus eof ht)

/-- **Emission and grouping.** For every expression and every range that the parser reads anywhere in a
source, the emitter gives a text, and that text reads in the target language as the tree that is meant,
and as no other, exactly if the expression is grouped and no attribute is glued to a number. -/
theorem reads_render_iff {source : String} {tokens ts rest : List Token} {n : Nat} {e : Expr}
    (hscan : scan source = .ok tokens) (hsuffix : ts <:+ tokens)
    (hread : Parser.expression n ts = .ok (e, rest) ∨ Parser.loopSource n ts = .ok (e, rest)) :
    ∃ text, render tokens e = .ok text ∧
      ((∀ t, Reads text t ↔ t = shape e) ↔ grouped e = true ∧ unglued e = true) := by
  refine Produced.reads_iff tokens ?_
  rcases hread with hread | hread
  · have hmeets := Parser.expression_meets n ts
    rw [hread] at hmeets
    obtain ⟨us, hts, hend, he, -⟩ := hmeets
    exact produced_of_derives he (formed_of_taken hscan hsuffix hts hend)
  · have hmeets := Parser.loopSource_meets n ts
    rw [hread] at hmeets
    obtain ⟨us, hts, hend, he⟩ := hmeets
    exact produced_of_source he (formed_of_taken hscan hsuffix hts hend)

/-- The sign of `-a.b` is that of the attribute, in the source as in its text. -/
theorem reads_render_iff_negated_attribute :
    ∃ tokens rest text, scan "-a.b" = .ok tokens ∧
      Parser.expression 99 tokens = .ok (.unary .negate (.attribute (.name "a") "b"), rest) ∧
      render tokens (.unary .negate (.attribute (.name "a") "b")) = .ok text ∧
      ∀ t, Reads text t ↔ t = .unary .negate (.field (.word "a") "b") := by
  have hscan : scan "-a.b" = .ok [⟨.minus, "-", ⟨1, 1⟩⟩, ⟨.identifier, "a", ⟨1, 2⟩⟩, ⟨.dot, ".", ⟨1, 3⟩⟩,
      ⟨.identifier, "b", ⟨1, 4⟩⟩, ⟨.endOfInput, "", ⟨1, 5⟩⟩] := eq_ok_of_toOption (by decide +kernel)
  obtain ⟨text, htext, hiff⟩ := reads_render_iff (n := 99) hscan List.suffix_rfl (.inl rfl)
  exact ⟨_, _, text, hscan, rfl, htext, hiff.2 ⟨rfl, rfl⟩⟩

/-- The attribute of a negated value has the same text, so its sign moves. -/
theorem not_reads_negated_target :
    render [] (.attribute (.unary .negate (.name "a")) "b") = .ok "-a.b" ∧
      ¬Reads "-a.b" (shape (.attribute (.unary .negate (.name "a")) "b")) := by
  have hproduced : Produced (.one (.attribute (.unary .negate (.name "a")) "b")) :=
    .field (.unary _ (.name (wordlike_of_isIdentifier rfl))) (wordlike_of_isIdentifier rfl)
  obtain ⟨text, htext, hiff⟩ := hproduced.reads_iff []
  cases htext
  refine ⟨rfl, fun hreads => ?_⟩
  have hgrouped := (hiff.1 fun t => ⟨fun ht => hreads.unique ht, fun ht => ht ▸ hreads⟩).1
  exact absurd hgrouped (by decide)

end ScriptWorkbench.Target
