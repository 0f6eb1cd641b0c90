/-
The functions that the index of packages lists, and those that a program declares.

The index is made by a search over the text, the program by the grammar. Comments, string literals and names
that end in `func` can all set them apart. Main statement: `signatures_eq_declared_iff`.
-/
import ScriptWorkbench.Proofs.PlainHeadings

namespace ScriptWorkbench.Package

open Token Grammar List

variable {cs rest : List Char} {s : Slice} {us : List Token} {ds : List (String × List String)}
  {n : Nat} {ss : List Slice} {names : List String} {t : Token}

/-! ## What is compared -/

def Signature.summary (s : Signature) : String × List String := (s.name, s.parameters.map Parameter.name)

def foundPlaces (source : String) : List Nat :=
  (signaturePattern.findAll source.toList).map Pattern.Found.first

def funcPlaces : Nat → List Slice → List Nat
  | _, [] => []
  | n, s :: ss =>
    let later := funcPlaces (n + (s.gap.length + s.text.length)) ss
    if s.kind = .funcWord then (n + s.gap.length) :: later else later

def BlankToBrace : List Slice → Prop
  | [] => True
  | s :: ss => (∀ c ∈ s.gap, Text.isBlank c = true) ∧ (s.kind ≠ .leftBrace → BlankToBrace ss)

instance decidableBlankToBrace : (ss : List Slice) → Decidable (BlankToBrace ss)
  | [] => inferInstanceAs (Decidable True)
  | s :: ss =>
    have := decidableBlankToBrace ss
    have : Decidable (∀ c ∈ s.gap, Text.isBlank c = true) := List.decidableBAll _ s.gap
    inferInstanceAs (Decidable ((∀ c ∈ s.gap, Text.isBlank c = true) ∧
      (s.kind ≠ .leftBrace → BlankToBrace ss)))

def PlainHeaders : List Slice → Prop
  | [] => True
  | s :: ss => (s.kind = .funcWord → BlankToBrace ss) ∧ PlainHeaders ss

instance decidablePlainHeaders : (ss : List Slice) → Decidable (PlainHeaders ss)
  | [] => inferInstanceAs (Decidable True)
  | s :: ss =>
    have := decidablePlainHeaders ss
    inferInstanceAs (Decidable ((s.kind = .funcWord → BlankToBrace ss) ∧ PlainHeaders ss))

def OnlyAt (places : List Nat) (n : Nat) (cs : List Char) : Prop :=
  ∀ k, heading? (cs.drop k) ≠ none → n + k ∈ places

def entriesFrom (n : Nat) (cs : List Char) : List (Nat × String × List String) :=
  (headingsFrom n 0 cs).map fun e => (e.1, String.ofList e.2.name, parameterNames e.2.parameters)

theorem describe_frame (code : String) (s : Signature) :
    (describe code s).name = s.name ∧ (describe code s).parameters = s.parameters := by
  rw [describe]
  split <;> exact ⟨rfl, rfl⟩

theorem map_summary_documentedSignatures (source : String) :
    (documentedSignatures source).map Signature.summary = (signatures source).map Signature.summary := by
  rw [documentedSignatures, map_map]
  refine map_congr_left fun s _ => ?_
  obtain ⟨hname, hparameters⟩ := describe_frame source s
  rw [Function.comp_apply, Signature.summary, hname, hparameters, ← Signature.summary]

theorem map_entriesFrom (source : String) :
    (entriesFrom 0 source.toList).map Prod.fst = foundPlaces source ∧
      (entriesFrom 0 source.toList).map Prod.snd = (signatures source).map Signature.summary := by
  have hplaced := placed_signatures source.toList
  rw [signatures, entriesFrom]
  have hfirst := congrArg (map Prod.fst) hplaced
  have hsecond := congrArg (map fun e => e.2.summary) hplaced
  have hsummary (h : Heading) :
      h.signature.summary = (String.ofList h.name, parameterNames h.parameters) := by
    rw [Signature.summary, Heading.signature, parameterNames]
  simp only [map_map, Function.comp_def, hsummary] at hfirst hsecond ⊢
  exact ⟨hfirst.symm, hsecond.symm⟩

/-! ## Stretches without headings -/

theorem headingsFrom_of_quiet (h : Quiet cs rest) (n : Nat) :
    headingsFrom n 0 (cs ++ rest) = headingsFrom (n + cs.length) 0 rest := by
  induction cs generalizing n with
  | nil => rfl
  | cons c cs ih =>
    rw [quiet_cons] at h
    rw [cons_append, headingsFrom_of_none h.1, ih h.2, length_cons, Nat.add_assoc, Nat.add_comm 1]

theorem exists_heading_of_not_quiet (h : ¬Quiet cs rest) (n : Nat) :
    ∃ k < cs.length, ∃ found later, headingsFrom n 0 (cs ++ rest) = (n + k, found) :: later := by
  induction cs generalizing n with
  | nil => exact absurd (quiet_nil rest) h
  | cons c cs ih =>
    cases hheading : heading? (c :: (cs ++ rest)) with
    | some found => exact ⟨0, Nat.succ_pos _, found, _, headingsFrom_of_heading hheading n⟩
    | none =>
      rw [quiet_cons] at h
      obtain ⟨k, hk, found, later, heq⟩ := ih (fun hcs => h ⟨hheading, hcs⟩) (n + 1)
      refine ⟨k + 1, Nat.succ_lt_succ hk, found, later, ?_⟩
      rw [cons_append, headingsFrom_of_none hheading, heq, Nat.add_assoc, Nat.add_comm 1]

theorem entriesFrom_append_iff {es : List (Nat × String × List String)}
    (hes : ∀ e ∈ es, n + cs.length ≤ e.1) :
    entriesFrom n (cs ++ rest) = es ↔ Quiet cs rest ∧ entriesFrom (n + cs.length) rest = es := by
  constructor
  · intro heq
    have hquiet : Quiet cs rest := by
      apply Classical.byContradiction
      intro hnot
      obtain ⟨k, hk, found, later, hlist⟩ := exists_heading_of_not_quiet hnot n
      rw [entriesFrom, hlist, map_cons] at heq
      have hle := hes _ (heq ▸ mem_cons_self)
      omega
    rw [entriesFrom, headingsFrom_of_quiet hquiet] at heq
    exact ⟨hquiet, heq⟩
  · rintro ⟨hquiet, heq⟩
    rw [entriesFrom, headingsFrom_of_quiet hquiet]
    exact heq

theorem onlyAt_append_iff {places : List Nat} (hplaces : ∀ m ∈ places, n + cs.length ≤ m) :
    OnlyAt places n (cs ++ rest) ↔ Quiet cs rest ∧ OnlyAt places (n + cs.length) rest := by
  constructor
  · intro h
    refine ⟨fun k hk => ?_, fun k hk => ?_⟩
    · apply Classical.byContradiction
      intro hsome
      have hle := hplaces _ (h k hsome)
      omega
    · have hmem := h (cs.length + k) (by rwa [← drop_drop, drop_left])
      rwa [← Nat.add_assoc] at hmem
  · rintro ⟨hquiet, hrest⟩ k hk
    by_cases hlt : k < cs.length
    · exact absurd (hquiet k hlt) hk
    · obtain ⟨j, rfl⟩ := Nat.exists_eq_add_of_le (Nat.not_lt.1 hlt)
      rw [← drop_drop, drop_left] at hk
      rw [← Nat.add_assoc]
      exact hrest j hk

/-! ## Places of declarations -/

theorem funcPlaces_append {us : List Slice} (hus : ∀ s ∈ us, s.kind ≠ .funcWord) (n : Nat)
    (ss : List Slice) : funcPlaces n (us ++ ss) = funcPlaces (n + (joined us).length) ss := by
  induction us generalizing n with
  | nil => rfl
  | cons s us ih =>
    rw [forall_mem_cons] at hus
    rw [cons_append, funcPlaces, if_neg hus.1, ih hus.2, joined, length_append,
      length_append, Nat.add_assoc, Nat.add_assoc]

theorem le_of_mem_funcPlaces {n m : Nat} {ss : List Slice} (h : m ∈ funcPlaces n ss) : n ≤ m := by
  induction ss generalizing n with
  | nil => cases h
  | cons s ss ih =>
    rw [funcPlaces] at h
    split at h
    · obtain rfl | h := mem_cons.1 h
      · exact Nat.le_add_right _ _
      · exact Nat.le_trans (Nat.le_add_right _ _) (ih h)
    · exact Nat.le_trans (Nat.le_add_right _ _) (ih h)

theorem le_of_mem_zip_funcPlaces {e : Nat × String × List String} (h : e ∈ (funcPlaces n ss).zip ds) :
    n ≤ e.1 :=
  le_of_mem_funcPlaces (of_mem_zip (a := e.1) (b := e.2) h).1

theorem plainHeaders_append {us : List Slice} (hus : ∀ s ∈ us, s.kind ≠ .funcWord) (ss : List Slice) :
    PlainHeaders (us ++ ss) ↔ PlainHeaders ss := by
  induction us with
  | nil => rfl
  | cons s us ih =>
    rw [forall_mem_cons] at hus
    rw [cons_append, PlainHeaders, ih hus.2]
    exact and_iff_right fun hkind => absurd hkind hus.1

theorem blankToBrace_iff {us : List Slice} (hus : ∀ s ∈ us, s.kind ≠ .leftBrace) {brace : Slice}
    (hbrace : brace.kind = .leftBrace) (ss : List Slice) :
    BlankToBrace (us ++ brace :: ss) ↔ Blank (us ++ [brace]) := by
  induction us with
  | nil =>
    rw [nil_append, nil_append, Blank, forall_mem_singleton]
    exact and_iff_left fun hkind => absurd hbrace hkind
  | cons s us ih =>
    rw [forall_mem_cons] at hus
    rw [cons_append, BlankToBrace, forall_prop_of_true hus.1, ih hus.2, cons_append, blank_cons]

/-! ## The heading behind each `func` -/

theorem kind_of_word (hs : s.word = t.content) {kind : Kind} (ht : t.kind = kind) : s.kind = kind :=
  (congrArg Prod.fst hs).trans ht

theorem isWord_of_sliced (h : Sliced (s :: ss)) (hs : s.word = t.content)
    (ht : t.kind = .identifier) :
    IsWord s.text ∧ t.value = String.ofList s.text := by
  have hkind := kind_of_word hs ht
  obtain ⟨hne, hword, hvalue, -⟩ := (h.lexeme (by rw [hkind]; decide)).identifier hkind
  exact ⟨⟨hne, hword⟩, (congrArg Prod.snd hs).symm.trans hvalue⟩

theorem text_of_sliced (h : Sliced (s :: ss)) (hs : s.word = t.content) {kind : Kind}
    (ht : t.kind = kind) {c : Char} (hc : (c, kind) ∈ symbols) :
    s.text = [c] := by
  have hkind := kind_of_word hs ht
  have hend : ∀ x ∈ symbols, x.2 ≠ .endOfInput := by decide
  refine (h.lexeme (by rw [hkind]; exact hend _ hc)).symbol ?_
  rw [← hkind] at hc
  exact hc

theorem listing_of_names (h : Names names us) {ps rest : List Slice}
    (hps : ps.map Slice.word = us.map content) (hsliced : Sliced (ps ++ rest)) :
    Listing names ps ∧ ∀ s ∈ ps, s.kind = .identifier ∨ s.kind = .comma := by
  induction h generalizing ps with
  | @one t ht =>
    obtain ⟨s, ps', rfl, hs, hnil⟩ := map_eq_cons_iff.1 hps
    obtain rfl := map_eq_nil_iff.1 hnil
    obtain ⟨hword, hname⟩ := isWord_of_sliced hsliced hs ht
    rw [hname]
    exact ⟨.one hword hsliced.gap_cases, forall_mem_singleton.2 (.inl (kind_of_word hs ht))⟩
  | @more names t u us ht hu _ ih =>
    obtain ⟨s, ps', rfl, hs, hrest⟩ := map_eq_cons_iff.1 hps
    obtain ⟨comma, ps, rfl, hcomma, hrest⟩ := map_eq_cons_iff.1 hrest
    obtain ⟨hword, hname⟩ := isWord_of_sliced hsliced hs ht
    have hbehind := hsliced.tail
    obtain ⟨hlisting, hkinds⟩ := ih hrest hbehind.tail
    rw [hname]
    refine ⟨.more hword hsliced.gap_cases (text_of_sliced hbehind hcomma hu (by decide))
      hbehind.gap_cases hlisting, ?_⟩
    exact forall_mem_cons.2 ⟨.inl (kind_of_word hs ht),
      forall_mem_cons.2 ⟨.inr (kind_of_word hcomma hu), hkinds⟩⟩

theorem listing_of_parameters (h : Parameters names us) {ps rest : List Slice}
    (hps : ps.map Slice.word = us.map content) (hsliced : Sliced (ps ++ rest)) :
    Listing names ps ∧ ∀ s ∈ ps, s.kind = .identifier ∨ s.kind = .comma := by
  cases h with
  | nothing =>
    obtain rfl := map_eq_nil_iff.1 hps
    exact ⟨.nothing, fun s hs => absurd hs not_mem_nil⟩
  | names h => exact listing_of_names h hps hsliced

/-- **The heading of a declaration in slices:** what stands behind the word `func`, up to and with the
brace. -/
theorem exists_header {name l r b : Token} {vs : List Token} (ht : t.kind = .funcWord)
    (hname : name.kind = .identifier) (hl : l.kind = .leftParen) (hus : Parameters names us)
    (hr : r.kind = .rightParen) (hb : b.kind = .leftBrace) (hsliced : Sliced ss)
    (hwords : ss.map Slice.word = (t :: name :: l :: (us ++ r :: b :: vs)).map content) :
    ∃ (func : Slice) (h : Header) (body : List Slice), ss = func :: (h.slices ++ body) ∧
      func.kind = .funcWord ∧ func.text = ['f', 'u', 'n', 'c'] ∧
      String.ofList h.name.text = name.value ∧ h.names = names ∧
      (∀ s ∈ h.slices, s.kind ≠ .funcWord) ∧ (BlankToBrace (h.slices ++ body) ↔ Blank h.slices) ∧
      body.map Slice.word = vs.map content := by
  obtain ⟨sfunc, ss, rfl, hsfunc, hwords⟩ := map_eq_cons_iff.1 hwords
  obtain ⟨sname, ss, rfl, hsname, hwords⟩ := map_eq_cons_iff.1 hwords
  obtain ⟨sl, ss, rfl, hsl, hwords⟩ := map_eq_cons_iff.1 hwords
  rw [map_append] at hwords
  obtain ⟨ps, ss, rfl, hps, hwords⟩ := map_eq_append_iff.1 hwords
  obtain ⟨sr, ss, rfl, hsr, hwords⟩ := map_eq_cons_iff.1 hwords
  obtain ⟨sb, body, rfl, hsb, hbody⟩ := map_eq_cons_iff.1 hwords
  have hkind := kind_of_word hsfunc ht
  obtain ⟨htext, hstop⟩ := (hsliced.lexeme (by rw [hkind]; decide)).funcWord hkind
  have hsliced := hsliced.tail
  obtain ⟨hword, hvalue⟩ := isWord_of_sliced hsliced hsname hname
  have hopens := hsliced.tail
  obtain ⟨hlisting, hkinds⟩ := listing_of_parameters hus hps hopens.tail
  have hcloses := hopens.tail.drop
  -- a name right behind `func` would have been read as one word with it
  have hapart : sname.gap ≠ [] := by
    intro hnil
    obtain ⟨c, cs, hcs⟩ := exists_cons_of_ne_nil hword.1
    have hc := hstop c (by rw [joined, hnil, hcs]; rfl)
    have hc' := hword.2 c (by rw [hcs]; exact mem_cons_self)
    exact absurd (hc.symm.trans hc') (by decide)
  have hbefore : ∀ s ∈ sname :: sl :: (ps ++ [sr]),
      s.kind ∈ [Kind.identifier, .leftParen, .comma, .rightParen] := by
    refine forall_mem_cons.2 ⟨by rw [kind_of_word hsname hname]; decide, forall_mem_cons.2
      ⟨by rw [kind_of_word hsl hl]; decide, forall_mem_append.2 ⟨fun s hs => ?_,
        forall_mem_singleton.2 (by rw [kind_of_word hsr hr]; decide)⟩⟩⟩
    obtain hs | hs := hkinds s hs <;> rw [hs] <;> decide
  have hne {kind : Kind} (hnot : kind ∉ [Kind.identifier, .leftParen, .comma, .rightParen]) :
      ∀ s ∈ sname :: sl :: (ps ++ [sr]), s.kind ≠ kind := by
    rintro s hs rfl
    exact hnot (hbefore s hs)
  have hbrace := kind_of_word hsb hb
  let h : Header := ⟨sname, sl, ps, sr, sb, names, hword, text_of_sliced hopens hsl hl (by decide),
    hlisting, text_of_sliced hcloses hsr hr (by decide), text_of_sliced hcloses.tail hsb hb (by decide),
    hapart, hsliced.gap_cases, hopens.gap_cases, hcloses.gap_cases, hcloses.tail.gap_cases⟩
  have hslices : h.slices = (sname :: sl :: (ps ++ [sr])) ++ [sb] := by simp [h, Header.slices]
  refine ⟨sfunc, h, body, ?_, hkind, htext, hvalue.symm, rfl, ?_, ?_, hbody⟩
  · simp [hslices]
  · rw [hslices]
    exact forall_mem_append.2 ⟨hne (by decide), forall_mem_singleton.2
      (by rw [hbrace]; decide)⟩
  · rw [hslices, append_assoc]
    exact blankToBrace_iff (hne (by decide)) hbrace body

/-! ## Agreement -/

theorem length_funcPlaces {ts : List Token} (h : Outline ds ts) (hsliced : Sliced ss)
    (hwords : ss.map Slice.word = ts.map content) (n : Nat) :
    (funcPlaces n ss).length = ds.length := by
  induction h generalizing ss n with
  | nothing =>
    obtain rfl := map_eq_nil_iff.1 hwords
    rfl
  | @other ds t us ht _ ih =>
    obtain ⟨s, ss, rfl, hs, hwords⟩ := map_eq_cons_iff.1 hwords
    have hne : s.kind ≠ .funcWord := by
      rw [kind_of_word hs rfl]
      exact ht
    rw [funcPlaces, if_neg hne]
    exact ih hsliced.tail hwords _
  | function ht hname hl hus hr hb _ ih =>
    obtain ⟨func, h, body, rfl, hkind, -, -, -, hne, -, hbody⟩ :=
      exists_header ht hname hl hus hr hb hsliced hwords
    rw [funcPlaces, if_pos hkind, length_cons, funcPlaces_append hne, ih hsliced.tail.drop hbody, length_cons]

theorem le_of_mem_entriesFrom {e : Nat × String × List String} (h : e ∈ entriesFrom n cs) :
    n ≤ e.1 := by
  obtain ⟨e', hmem, rfl⟩ := mem_map.1 h
  obtain ⟨k, hk, -⟩ := heading?_of_mem_headingsFrom hmem
  omega

section Step

variable {h : Header} {rest : List Char} {n : Nat}

theorem entriesFrom_header {es : List (Nat × String × List String)} :
    entriesFrom n (['f', 'u', 'n', 'c'] ++ (joined h.slices ++ rest)) =
        (n, String.ofList h.name.text, h.names) :: es ↔
      Blank h.slices ∧ entriesFrom (n + (['f', 'u', 'n', 'c'] ++ joined h.slices).length) rest = es := by
  have hstep (hblank : Blank h.slices) :
      entriesFrom n (['f', 'u', 'n', 'c'] ++ (joined h.slices ++ rest)) =
        (n, String.ofList h.name.text, h.names) ::
          entriesFrom (n + (['f', 'u', 'n', 'c'] ++ joined h.slices).length) rest := by
    obtain ⟨found, hfound, htext, hrest, hname, hnames⟩ := Header.heading_of_blank hblank rest
    rw [entriesFrom, headingsFrom_of_heading hfound, map_cons, htext, hrest, hname, hnames]
    rfl
  constructor
  · intro heq
    have hblank : Blank h.slices := by
      cases hfound : heading? (['f', 'u', 'n', 'c'] ++ (joined h.slices ++ rest)) with
      | none =>
        -- the first entry would be further behind
        rw [cons_append] at hfound heq
        rw [entriesFrom, headingsFrom_of_none hfound, ← entriesFrom] at heq
        have hmem : (n, String.ofList h.name.text, h.names) ∈
            entriesFrom (n + 1) (['u', 'n', 'c'] ++ (joined h.slices ++ rest)) := by
          rw [heq]
          exact mem_cons_self
        exact absurd (le_of_mem_entriesFrom hmem) (Nat.not_succ_le_self n)
      | some found =>
        rw [entriesFrom, headingsFrom_of_heading hfound, map_cons, cons.injEq, Prod.mk.injEq,
          Prod.mk.injEq] at heq
        exact Header.blank_of_heading hfound heq.1.2.2
    rw [hstep hblank, cons.injEq] at heq
    exact ⟨hblank, heq.2⟩
  · rintro ⟨hblank, rfl⟩
    exact hstep hblank

theorem onlyAt_header (hblank : Blank h.slices) {places : List Nat}
    (hplaces : ∀ m ∈ places, n + (['f', 'u', 'n', 'c'] ++ joined h.slices).length ≤ m) :
    OnlyAt (n :: places) n (['f', 'u', 'n', 'c'] ++ (joined h.slices ++ rest)) ↔
      OnlyAt places (n + (['f', 'u', 'n', 'c'] ++ joined h.slices).length) rest := by
  have hlength : n + (['f', 'u', 'n', 'c'] ++ joined h.slices).length =
      n + 1 + (['u', 'n', 'c'] ++ joined h.slices).length := by
    grind
  rw [hlength] at hplaces ⊢
  have hinside : OnlyAt places (n + 1) (['u', 'n', 'c'] ++ (joined h.slices ++ rest)) ↔
      OnlyAt places (n + 1 + (['u', 'n', 'c'] ++ joined h.slices).length) rest := by
    rw [← append_assoc, onlyAt_append_iff hplaces]
    exact and_iff_right (Header.quiet hblank rest)
  rw [← hinside]
  constructor
  · intro honly k hk
    have hmem : n + (k + 1) ∈ n :: places := honly (k + 1) hk
    obtain heq | hmem := mem_cons.1 hmem
    · omega
    · rwa [Nat.add_assoc, Nat.add_comm 1]
  · intro honly k hk
    cases k with
    | zero => exact mem_cons_self
    | succ k =>
      have hmem := honly k hk
      rw [Nat.add_assoc, Nat.add_comm 1] at hmem
      exact mem_cons_of_mem _ hmem

end Step

/-- **The search and the slices agree** if and only if all headings are plain and there are no others. -/
theorem entriesFrom_eq_iff {ts : List Token} (h : Outline ds ts) (hsliced : Sliced ss)
    (hwords : ss.map Slice.word = ts.map content) (n : Nat) :
    entriesFrom n (joined ss) = (funcPlaces n ss).zip ds ↔
      PlainHeaders ss ∧ OnlyAt (funcPlaces n ss) n (joined ss) := by
  induction h generalizing ss n with
  | nothing =>
    obtain rfl := map_eq_nil_iff.1 hwords
    have hnone : OnlyAt (funcPlaces n []) n (joined []) := by
      intro k hk
      rw [joined, drop_nil] at hk
      exact absurd rfl hk
    exact iff_of_true rfl ⟨trivial, hnone⟩
  | @other ds t us ht _ ih =>
    obtain ⟨s, ss, rfl, hs, hwords⟩ := map_eq_cons_iff.1 hwords
    have hne : s.kind ≠ .funcWord := by
      rw [kind_of_word hs rfl]
      exact ht
    have hplain : PlainHeaders (s :: ss) ↔ PlainHeaders ss :=
      @plainHeaders_append [s] (forall_mem_singleton.2 hne) ss
    have hrest := ih hsliced.tail hwords (n + (s.gap ++ s.text).length)
    rw [funcPlaces, if_neg hne, hplain, joined, ← append_assoc, ← length_append,
      entriesFrom_append_iff fun e he => le_of_mem_zip_funcPlaces he,
      onlyAt_append_iff fun m hm => le_of_mem_funcPlaces hm, hrest]
    exact and_left_comm
  | @function ds names t name l r b us vs ht hname hl hus hr hb _ ih =>
    obtain ⟨func, h, body, rfl, hkind, htext, hvalue, hnames, hne, hbrace, hbody⟩ :=
      exists_header ht hname hl hus hr hb hsliced hwords
    have hjoined : joined (func :: (h.slices ++ body)) =
        func.gap ++ (['f', 'u', 'n', 'c'] ++ (joined h.slices ++ joined body)) := by
      rw [joined, htext, joined_append]
    have hplaces : funcPlaces n (func :: (h.slices ++ body)) = (n + func.gap.length) ::
        funcPlaces (n + func.gap.length + (['f', 'u', 'n', 'c'] ++ joined h.slices).length) body := by
      rw [funcPlaces, if_pos hkind, funcPlaces_append hne, htext, length_append]
      simp only [Nat.add_assoc]
    have hplain : PlainHeaders (func :: (h.slices ++ body)) ↔ Blank h.slices ∧ PlainHeaders body := by
      rw [PlainHeaders, forall_prop_of_true hkind, hbrace, plainHeaders_append hne]
    have hrest := ih hsliced.tail.drop hbody
      (n + func.gap.length + (['f', 'u', 'n', 'c'] ++ joined h.slices).length)
    have hlater := fun m => @le_of_mem_funcPlaces
      (n + func.gap.length + (['f', 'u', 'n', 'c'] ++ joined h.slices).length) m body
    rw [hjoined, hplaces, hplain, zip_cons_cons, ← hvalue, ← hnames, entriesFrom_append_iff,
      onlyAt_append_iff, entriesFrom_header, hrest]
    · constructor
      · rintro ⟨hquiet, hblank, hbody, honly⟩
        exact ⟨⟨hblank, hbody⟩, hquiet, (onlyAt_header hblank hlater).2 honly⟩
      · rintro ⟨⟨hblank, hbody⟩, hquiet, honly⟩
        exact ⟨hquiet, hblank, hbody, (onlyAt_header hblank hlater).1 honly⟩
    · refine forall_mem_cons.2 ⟨Nat.le_refl _, fun m hm => ?_⟩
      exact Nat.le_trans (Nat.le_add_right _ _) (hlater m hm)
    · refine forall_mem_cons.2 ⟨Nat.le_refl _, fun e he => ?_⟩
      exact Nat.le_trans (Nat.le_add_right _ _) (le_of_mem_zip_funcPlaces he)

/-- **The functions that are listed are the declared ones, each found where it is declared, if and only if**
the headings are plain and nothing else looks like a heading. Descriptions make no difference. -/
theorem signatures_eq_declared_iff {source : String} {p : Program} (h : ReadsWhole source p) :
    (∃ ss, Slices source ss) ∧
      (∀ ss, Slices source ss →
        (foundPlaces source = funcPlaces 0 ss ∧
            (signatures source).map Signature.summary = declared p ↔
          PlainHeaders ss ∧ ∀ n, heading? (source.toList.drop n) ≠ none → n ∈ funcPlaces 0 ss)) ∧
      (documentedSignatures source).map Signature.summary = (signatures source).map Signature.summary := by
  refine ⟨h.exists_slices, fun ss hss => ?_, map_summary_documentedSignatures source⟩
  obtain ⟨ts, hwords, houtline⟩ := h.outline hss
  have hlength := length_funcPlaces houtline hss.sliced hwords 0
  have hagree := entriesFrom_eq_iff houtline hss.sliced hwords 0
  obtain ⟨hfirst, hsecond⟩ := map_entriesFrom source
  have honly : OnlyAt (funcPlaces 0 ss) 0 source.toList ↔
      ∀ n, heading? (source.toList.drop n) ≠ none → n ∈ funcPlaces 0 ss := by
    simp only [OnlyAt, Nat.zero_add]
  rw [hss.text, honly] at hagree
  rw [← hagree, ← hfirst, ← hsecond]
  constructor
  · rintro ⟨hplaces, hlisted⟩
    rw [← hplaces, ← hlisted, ← List.unzip_fst, ← List.unzip_snd, List.zip_unzip]
  · intro heq
    rw [heq, List.map_fst_zip (Nat.le_of_eq hlength), List.map_snd_zip (Nat.le_of_eq hlength.symm)]
    exact ⟨rfl, rfl⟩

def commentedSlices : List Slice :=
  [⟨['#', '\n'], ['f', 'u', 'n', 'c'], (.funcWord, "func")⟩, ⟨[' '], ['f'], (.identifier, "f")⟩,
   ⟨[], ['('], (.leftParen, "(")⟩, ⟨[], ['a'], (.identifier, "a")⟩, ⟨[' '], [','], (.comma, ",")⟩,
   ⟨[' '], ['b'], (.identifier, "b")⟩, ⟨[], [')'], (.rightParen, ")")⟩,
   ⟨[' '], ['{'], (.leftBrace, "\x7b")⟩, ⟨[], ['}'], (.rightBrace, "\x7d")⟩,
   ⟨[], [], (.endOfInput, "")⟩]

theorem sliced_commentedSlices : Sliced commentedSlices := by
  have hspace : Loose [' '] := .blank (by decide) .nothing
  have hword {gap : List Char} {c : Char} {cs : List Char} {w : Kind × String} {ss : List Slice}
      (hgap : Loose gap) (hc : startsWord c = true) (hcs : cs.all isNameChar = true)
      (hstop : StopsAt isNameChar (joined ss))
      (hw : w = (wordKind (String.ofList (c :: cs)), String.ofList (c :: cs))) (hss : Sliced ss) :
      Sliced (⟨gap, c :: cs, w⟩ :: ss) := by
    have htoken := Sliced.token hgap .nothing (Lexeme.word hc (all_eq_true.1 hcs) hstop) hss
    rwa [append_nil, ← hw] at htoken
  have hsymbol {gap : List Char} {c : Char} {w : Kind × String} {ss : List Slice} (hgap : Loose gap)
      (hc : (c, w.1) ∈ symbols) (hne : ∀ x ∈ doubleSymbols, x.1.1 ≠ c) (hw : w.2 = String.ofList [c])
      (hss : Sliced ss) : Sliced (⟨gap, [c], w⟩ :: ss) := by
    have hlexeme : Lexeme [c] (joined ss) (w.1, String.ofList [c]) :=
      .single hc fun d _ kind hmem => hne _ hmem rfl
    have htoken := Sliced.token hgap .nothing hlexeme hss
    rwa [append_nil, ← hw] at htoken
  have hcomment : Loose ['#', '\n'] := @Loose.comment '#' [] [] [] (by decide) (by decide) .nothing
  refine hword hcomment (by decide) (by decide) (by rintro d ⟨⟩; decide) (by decide +kernel) ?_
  refine hword hspace (by decide) (by decide) (by rintro d ⟨⟩; decide) (by decide +kernel) ?_
  refine hsymbol .nothing (by decide) (by decide) (by decide +kernel) ?_
  refine hword .nothing (by decide) (by decide) (by rintro d ⟨⟩; decide) (by decide +kernel) ?_
  refine hsymbol hspace (by decide) (by decide) (by decide +kernel) ?_
  refine hword hspace (by decide) (by decide) (by rintro d ⟨⟩; decide) (by decide +kernel) ?_
  refine hsymbol .nothing (by decide) (by decide) (by decide +kernel) ?_
  refine hsymbol hspace (by decide) (by decide) (by decide +kernel) ?_
  refine hsymbol .nothing (by decide) (by decide) (by decide +kernel) ?_
  exact .done .nothing .nothing

theorem signatures_eq_declared_commented :
    ReadsWhole "#\nfunc f(a , b) \x7b\x7d" ⟨[⟨"f", ["a", "b"], .block []⟩], [], []⟩ ∧
      Slices "#\nfunc f(a , b) \x7b\x7d" commentedSlices ∧
      foundPlaces "#\nfunc f(a , b) \x7b\x7d" = [2] ∧
      (signatures "#\nfunc f(a , b) \x7b\x7d").map Signature.summary = [("f", ["a", "b"])] := by
  have hscan : scan "#\nfunc f(a , b) \x7b\x7d" = .ok [⟨.funcWord, "func", ⟨2, 1⟩⟩,
      ⟨.identifier, "f", ⟨2, 6⟩⟩, ⟨.leftParen, "(", ⟨2, 7⟩⟩, ⟨.identifier, "a", ⟨2, 8⟩⟩,
      ⟨.comma, ",", ⟨2, 10⟩⟩, ⟨.identifier, "b", ⟨2, 12⟩⟩, ⟨.rightParen, ")", ⟨2, 13⟩⟩,
      ⟨.leftBrace, "\x7b", ⟨2, 15⟩⟩, ⟨.rightBrace, "\x7d", ⟨2, 16⟩⟩,
      ⟨.endOfInput, "", ⟨2, 17⟩⟩] := eq_ok_of_toOption (by decide +kernel)
  have hreads : ReadsWhole "#\nfunc f(a , b) \x7b\x7d" ⟨[⟨"f", ["a", "b"], .block []⟩], [], []⟩ :=
    readsWhole_of_parse hscan rfl (by decide +kernel)
  have hslices : Slices "#\nfunc f(a , b) \x7b\x7d" commentedSlices :=
    ⟨sliced_commentedSlices, by decide +kernel, _, hscan, by decide +kernel⟩
  have hplain : PlainHeaders commentedSlices := by decide +kernel
  have honly (n : Nat) (hn : heading? ("#\nfunc f(a , b) \x7b\x7d".toList.drop n) ≠ none) :
      n ∈ funcPlaces 0 commentedSlices := by
    have hinside : ∀ n < 18, heading? ("#\nfunc f(a , b) \x7b\x7d".toList.drop n) ≠ none →
        n ∈ funcPlaces 0 commentedSlices := by decide +kernel
    by_cases hlt : n < 18
    · exact hinside n hlt hn
    · have hlength : "#\nfunc f(a , b) \x7b\x7d".toList.length = 18 := by decide +kernel
      rw [List.drop_eq_nil_of_le (by omega)] at hn
      exact absurd rfl hn
  have hagree := (signatures_eq_declared_iff hreads).2.1 commentedSlices hslices
  exact ⟨hreads, hslices, hagree.2 ⟨hplain, honly⟩⟩

def Listed (source : String) (ds fs : List (String × List String)) : Prop :=
  ∃ p, ReadsWhole source p ∧ declared p = ds ∧ (signatures source).map Signature.summary = fs

theorem listed_of_reads {source : String} {fs : List (String × List String)}
    (hds : (readProgram source).toOption.map (fun r => (breaksOff r.1, declared r.2)) = some (false, ds))
    (hfs : (entriesFrom 0 source.toList).map Prod.snd = fs) : Listed source ds fs := by
  obtain ⟨p, hreads, hp⟩ := exists_readsWhole declared hds
  exact ⟨p, hreads, hp, (map_entriesFrom source).2.symm.trans hfs⟩

/-- **The list can be wrong** in three ways: a heading in a comment is listed, a comment between the
parentheses becomes part of a name, and in a program without any function one is found behind a name that
ends in `func`. -/
theorem signatures_ne_declared :
    Listed "// func old(a) \x7b\nfunc f() \x7b\x7d" [("f", [])] [("old", ["a"]), ("f", [])] ∧
      Listed "func f(a /* x */) \x7b\x7d" [("f", ["a"])] [("f", ["a /* x */"])] ∧
      Listed "main \x7b if myfunc and (b) \x7b\x7d \x7d" [] [("and", ["b"])] := by
  exact ⟨listed_of_reads (by decide +kernel) (by decide +kernel),
    listed_of_reads (by decide +kernel) (by decide +kernel),
    listed_of_reads (by decide +kernel) (by decide +kernel)⟩

end ScriptWorkbench.Package
