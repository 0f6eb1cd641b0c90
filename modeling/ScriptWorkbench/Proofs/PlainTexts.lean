/-
Expressions on one line.

Whatever a source holds between the quotes of a string literal, the text of an expression has no line break in
it, of any kind, and it neither begins nor ends with a blank: **it is firm** (`firm_of_derives`). Its last
character belongs to a name, a number, a quote, a bracket or a fixed word. Blanks come from nowhere but
the fixed texts of the emitter, where they are spaces, and from string literals, where a blank that is no
space is written with a backslash.
-/
import ScriptWorkbench.Proofs.Offside

namespace ScriptWorkbench

open List

namespace Text

variable {c : Char}

theorem inline_iff (s : String) :
    s.toList.all (fun c => !isBlank c || c == ' ') = true ↔ Inline s := by
  rw [all_eq_true]
  refine forall₂_congr fun c _ => ?_
  cases isBlank c <;> simp

instance (s : String) : Decidable (Inline s) := decidable_of_iff _ (inline_iff s)

instance (s : String) : Decidable (Plain s) :=
  decidable_of_iff (s.toList.head?.map isBlank = some false ∧ Inline s)
    ⟨fun h => ⟨h.1, h.2⟩, fun h => ⟨h.starts, h.inline⟩⟩

theorem Blankless.plain {s : String} (h : Blankless s) : Plain s := by
  obtain ⟨hne, hvisible⟩ := h
  refine ⟨?_, fun c hc hblank => ?_⟩
  · rw [StartsVisibly, head?_eq_some_head hne]
    exact congrArg some (hvisible _ (head_mem hne))
  · rw [hvisible c hc] at hblank
    cases hblank

theorem Blankless.firm {s : String} (h : Blankless s) : Firm s := ⟨h.plain, h.endsVisibly⟩

/-! ## String literals -/

theorem eq_space_of_isVisible (hvisible : isVisible c = true) (hblank : isBlank c = true) :
    c = ' ' := by
  by_contra hc
  have hother : (isVisible c && c != ' ') = true := by
    rw [hvisible, Bool.true_and, bne_iff_ne]
    exact hc
  rw [isBlank_eq_false (p := fun c => isVisible c && c != ' ') hother (by decide +kernel)] at hblank
  cases hblank

theorem isBlank_of_mem_hexDigits {width n : Nat} (h : c ∈ hexDigits width n) :
    isBlank c = false := by
  have hdigits : ∀ d < 16, isBlank (hexDigit d) = false := by decide
  induction width generalizing n with
  | zero => cases h
  | succ width ih =>
    obtain h | h := mem_append.1 h
    · exact ih h
    · obtain rfl := mem_singleton.1 h
      exact hdigits _ (Nat.mod_lt _ (by decide))

theorem eq_space_of_mem_quoteChar {quote d : Char} (hquote : isBlank quote = false)
    (hd : d ∈ quoteChar quote c) (hblank : isBlank d = true) : d = ' ' := by
  -- a backslash and a character that is not blank
  have hpair {x : Char} (hx : isBlank x = false) (hd : d ∈ ['\\', x]) : d = ' ' := by
    rw [mem_cons, mem_singleton] at hd
    obtain rfl | rfl := hd
    · cases hblank
    · rw [hx] at hblank
      cases hblank
  have hhex {x : Char} {width : Nat} (hx : isBlank x = false)
      (hd : d ∈ '\\' :: x :: hexDigits width c.toNat) : d = ' ' := by
    obtain hd | hd := mem_append.1 (show d ∈ ['\\', x] ++ hexDigits width c.toNat from hd)
    · exact hpair hx hd
    · rw [isBlank_of_mem_hexDigits hd] at hblank
      cases hblank
  rw [quoteChar] at hd
  split at hd
  next hc =>
    refine hpair ?_ hd
    obtain rfl | rfl := hc
    · exact hquote
    · rfl
  · split at hd
    · exact hpair rfl hd
    · split at hd
      · exact hpair rfl hd
      · split at hd
        · exact hpair rfl hd
        · split at hd
          next hvisible =>
            obtain rfl := mem_singleton.1 hd
            exact eq_space_of_isVisible hvisible hblank
          · split at hd
            · exact hhex rfl hd
            · split at hd
              · exact hhex rfl hd
              · exact hhex rfl hd

/-- **A string literal is firm,** whatever its text is. -/
theorem firm_quote (s : String) : Firm (quote s) := by
  have hquote : isBlank (quoteFor s.toList) = false := by
    rcases Target.quoteFor_cases s.toList with h | h <;> rw [h] <;> decide
  have htoList : (quote s).toList = quoteChars s.toList := String.toList_ofList
  refine ⟨⟨?_, ?_⟩, quoteFor s.toList, ?_, hquote⟩
  · rw [StartsVisibly, htoList]
    exact congrArg some hquote
  · have hends (c : Char) (hc : c = quoteFor s.toList) (hblank : isBlank c = true) : c = ' ' := by
      rw [hc, hquote] at hblank
      cases hblank
    rw [Inline, htoList]
    refine forall_mem_cons.2 ⟨hends _ rfl, forall_mem_append.2 ⟨fun c hc => ?_,
      fun c hc => hends c (mem_singleton.1 hc)⟩⟩
    obtain ⟨d, -, hc⟩ := mem_flatMap.1 hc
    exact eq_space_of_mem_quoteChar hquote hc
  · rw [htoList, quoteChars, ← cons_append, getLast?_concat]

theorem inline_intercalate {texts : List String} (h : ∀ text ∈ texts, Inline text) :
    Inline (", ".intercalate texts) := by
  induction texts with
  | nil => exact fun c hc => absurd hc not_mem_nil
  | cons text texts ih =>
    obtain ⟨htext, htexts⟩ := forall_mem_cons.1 h
    cases texts with
    | nil => rwa [String.intercalate_singleton]
    | cons text' texts =>
      rw [String.intercalate_cons_cons]
      exact (htext.append (by decide)).append (ih htexts)

end Text

namespace Target

open Ast Token Grammar Text

variable {e : Expr} {tokens : List Token} {es : List Expr}

/-! ## Expressions -/

theorem blankless_name {t : Token} (h : Formed t) (ht : t.kind = .identifier) : Blankless t.value := by
  cases h with
  | mark hkind => rw [ht] at hkind; exact absurd (by decide) hkind
  | number hkind | text hkind => rw [ht] at hkind; cases hkind
  | @name c cs _ hvalue hfirst hrest =>
    have hc : isNameChar c = true := by
      rw [Bool.or_eq_true] at hfirst
      rw [isNameChar, isAlphanumeric]
      rcases hfirst with h | h <;> simp [h]
    rw [Blankless, hvalue]
    exact ⟨cons_ne_nil c cs, forall_mem_cons.2 ⟨isBlank_of_isNameChar hc, fun d hd =>
      isBlank_of_isNameChar (hrest d hd)⟩⟩

theorem blankless_real (significand : Nat) (exponent : Int) :
    Blankless (Number.Format.plain.write (.finite false significand exponent)) := by
  obtain ⟨d, ds, point, power, hds, hpoint, hpower, -, htext⟩ := real_form significand exponent
  have hpointChars : ∀ c ∈ point, isBlank c = false := by
    cases hpoint with
    | nothing => simp
    | digits hfs => exact forall_mem_cons.2 ⟨by decide, fun c hc => isBlank_of_isDigit (hfs c hc)⟩
  have hpowerChars : ∀ c ∈ power, isBlank c = false := by
    cases hpower with
    | nothing => simp
    | digits hsign hxs =>
      refine forall_mem_cons.2 ⟨by decide, forall_mem_cons.2 ⟨?_, fun c hc => isBlank_of_isDigit (hxs c hc)⟩⟩
      rcases hsign with rfl | rfl <;> decide
  rw [Blankless, htext]
  exact ⟨cons_ne_nil _ _, forall_mem_append.2 ⟨fun c hc => isBlank_of_isDigit (hds c hc),
    forall_mem_append.2 ⟨hpointChars, hpowerChars⟩⟩⟩

theorem blankless_toString (n : Nat) : Blankless (toString n) := by
  obtain ⟨d, ds, hds⟩ := exists_toString_eq_cons n
  exact ⟨by rw [hds]; exact cons_ne_nil d ds, fun c hc => isBlank_of_isDigit (digits_toString n c hc)⟩

theorem firm_literal {v : Literal} (h : Unsigned v) : Firm v.quoted := by
  cases h with
  | int n => exact (blankless_toString n).firm
  | finite significand exponent => exact (blankless_real significand exponent).firm
  | infinite | nan => decide
  | text s => exact firm_quote s
  | truth b => cases b <;> decide

theorem inline_symbol {op : BinaryOp} (h : ∀ text, op ≠ .other text) : Inline op.symbol := by
  cases op with
  | other text => exact absurd rfl (h text)
  | _ => decide

def Subject.Firm (tokens : List Token) : Subject → Prop
  | .one e => ∀ text, render tokens e = .ok text → Text.Firm text
  | .all es => ∀ texts, renderAll tokens es = .ok texts → ∀ text ∈ texts, Inline text

theorem subjectFirm_nil (tokens : List Token) : (Subject.all []).Firm tokens := by
  rintro texts ⟨⟩
  exact fun text htext => absurd htext not_mem_nil

theorem subjectFirm_cons (he : (Subject.one e).Firm tokens) (hes : (Subject.all es).Firm tokens) :
    (Subject.all (e :: es)).Firm tokens := by
  intro texts htexts
  obtain ⟨first, hfirst, htexts⟩ := bind_eq_ok htexts
  obtain ⟨others, hothers, htexts⟩ := bind_eq_ok htexts
  cases htexts
  exact forall_mem_cons.2 ⟨(he first hfirst).1.inline, hes others hothers⟩

theorem subjectFirm_list (hes : (Subject.all es).Firm tokens) :
    (Subject.one (.list es)).Firm tokens := by
  intro text htext
  obtain ⟨texts, htexts, htext⟩ := bind_eq_ok htext
  cases htext
  have hopen : Plain "[" := by decide
  exact (hopen.append (inline_intercalate (hes texts htexts))).firm_append (by decide)

theorem inline_joinArguments {line : Option Nat} {texts : List String}
    (h : ∀ text ∈ texts, Inline text) : Inline (joinArguments line texts) := by
  cases line with
  | none => exact inline_intercalate h
  | some n => exact ((blankless_toString n).plain.inline.append (by decide)).append (inline_intercalate h)

theorem subjectFirm_call (he : (Subject.one e).Firm tokens) (hes : (Subject.all es).Firm tokens) :
    (Subject.one (.call e es)).Firm tokens := by
  have haliases : ∀ x ∈ callAliases, Plain x.2 := by decide
  intro text htext
  obtain ⟨texts, htexts, htext⟩ := bind_eq_ok htext
  have hcall {callee : String} (hcallee : Plain callee) :
      Firm (callee ++ "(" ++ joinArguments (injectedLine? tokens e) texts ++ ")") :=
    ((hcallee.append (by decide)).append (inline_joinArguments (hes texts htexts))).firm_append
      (by decide)
  -- under another name the callee itself is not rendered
  split at htext
  next name hname =>
    cases htext
    obtain ⟨n, -, hlookup⟩ := Option.bind_eq_some_iff.1 hname
    exact hcall (haliases _ (mem_of_lookup hlookup))
  next =>
    obtain ⟨callee, hcallee, htext⟩ := bind_eq_ok htext
    cases htext
    exact hcall (he callee hcallee).1

/-- **The text of an expression of a source is firm.** -/
theorem firm_of_derives (tokens : List Token) {phrase : Phrase} {us : List Token}
    (h : Derives phrase us) (hus : ∀ t ∈ us, Formed t) : (subjectOf phrase).Firm tokens := by
  -- every text begins with an operand or a bracket of its own; of what follows only breaks matter
  induction h with
  | signed _ ih | tighter _ _ ih | applied _ ih | primary _ ih => exact ih hus
  | operator _ hop _ ihl ihr =>
    intro text htext
    obtain ⟨left, hleft, htext⟩ := bind_eq_ok htext
    obtain ⟨right, hright, htext⟩ := bind_eq_ok htext
    cases htext
    have hopen : Plain "(" := by decide
    have hspace : Inline " " := by decide
    have hsymbol := inline_symbol (ne_other_of_operator hop)
    exact (((((hopen.append (ihl (by grind) left hleft).1.inline).append hspace).append
      hsymbol).append hspace).append (ihr (by grind) right hright).1.inline).firm_append (by decide)
  | @sign _ op _ _ _ _ ih =>
    intro text htext
    obtain ⟨operand, hoperand, htext⟩ := bind_eq_ok htext
    cases htext
    have hfirm := ih (by grind) operand hoperand
    have hnegate : Plain "-" := by decide
    have hnot : Plain "not " := by decide
    cases op with
    | negate => exact hnegate.firm_append hfirm
    | not => exact hnot.firm_append hfirm
  | callNothing _ _ _ ih => exact subjectFirm_call (ih (by grind)) (subjectFirm_nil tokens)
  | call _ _ _ _ ihc ihes => exact subjectFirm_call (ihc (by grind)) (ihes (by grind))
  | field _ _ hu ih =>
    intro text htext
    obtain ⟨target, htarget, htext⟩ := bind_eq_ok htext
    cases htext
    exact ((ih (by grind) target htarget).1.append (by decide)).firm_append
      (blankless_name (hus _ (by simp)) hu).firm
  | index _ _ _ _ iht ihi =>
    intro text htext
    obtain ⟨target, htarget, htext⟩ := bind_eq_ok htext
    obtain ⟨position, hposition, htext⟩ := bind_eq_ok htext
    cases htext
    have hinner := (ihi (by grind) position hposition).1.inline
    exact (((iht (by grind) target htarget).1.append (by decide)).append hinner).firm_append
      (by decide)
  | number ht hv =>
    rintro text ⟨⟩
    exact firm_literal (numberLiteral_unsigned (not_mem_minus_of_formed (hus _ (by simp)) ht) hv)
  | text => rintro text ⟨⟩; exact firm_quote _
  | true => rintro text ⟨⟩; exact firm_literal (.truth true)
  | false => rintro text ⟨⟩; exact firm_literal (.truth false)
  | name ht => rintro text ⟨⟩; exact (blankless_name (hus _ (by simp)) ht).firm
  | this => rintro text ⟨⟩; decide
  | group _ _ _ ih => exact ih (by grind)
  | listNothing => exact subjectFirm_list (subjectFirm_nil tokens)
  | list _ _ _ ih => exact subjectFirm_list (ih (by grind))
  | one _ ih => exact subjectFirm_cons (ih hus) (subjectFirm_nil tokens)
  | more _ _ _ ihe ihes => exact subjectFirm_cons (ihe (by grind)) (ihes (by grind))

theorem firm_of_source (tokens : List Token) {us : List Token} (h : Source e us)
    (hus : ∀ t ∈ us, Formed t) : (Subject.one e).Firm tokens := by
  cases h with
  | value he => exact firm_of_derives tokens he hus
  | range ha _ hb =>
    intro text htext
    obtain ⟨first, hfirst, htext⟩ := bind_eq_ok htext
    obtain ⟨last, hlast, htext⟩ := bind_eq_ok htext
    cases htext
    have hopen : Plain "range(" := by decide
    have hfirstFirm := firm_of_derives tokens ha (by grind) first hfirst
    have hlastFirm := firm_of_derives tokens hb (by grind) last hlast
    exact ⟨(((hopen.append hfirstFirm.1.inline).append (by decide)).append
      hlastFirm.1.inline).append (by decide), EndsVisibly.append _ (by decide)⟩

end Target

end ScriptWorkbench
