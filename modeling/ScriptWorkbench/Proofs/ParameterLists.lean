/-
The names in a list of parameters.

A list of parameters is split at its commas, and what is between them is read as a name, up to a colon, with
the blanks around it dropped. **What is neither blank nor a separator always ends up in a name**
(`exists_parameterName`): a comment between the parentheses cannot go unseen.
-/
import ScriptWorkbench.Package.Signature
import ScriptWorkbench.Proofs.FileWrites
import ScriptWorkbench.Proofs.Offside

namespace ScriptWorkbench

open List

/-! ## Trimming and splitting -/

namespace Text

variable {sep : Char}

variable {p : Char → Bool}

theorem dropEndWhile_append_of_pos {cs ds : List Char} (h : ∀ c ∈ ds, p c = true) :
    dropEndWhile p (cs ++ ds) = dropEndWhile p cs := by
  rw [dropEndWhile, reverse_append, dropWhile_append_of_pos fun c hc => h c (mem_reverse.1 hc)]
  rfl

theorem dropAround_append_of_pos {cs ds : List Char} (h : ∀ c ∈ ds, p c = true) :
    dropAround p (cs ++ ds) = dropAround p cs := by
  rw [dropAround, dropWhile_append]
  split
  next hnil =>
    have hds : ds.dropWhile p = [] := by simpa using @List.dropWhile_append_of_pos _ p ds [] h
    rw [hds, dropAround, isEmpty_iff.1 hnil]
  next => exact dropEndWhile_append_of_pos h

theorem dropAround_of_pos_append {cs ds : List Char} (h : ∀ c ∈ cs, p c = true) :
    dropAround p (cs ++ ds) = dropAround p ds := by
  rw [dropAround, dropWhile_append_of_pos h]
  rfl

theorem dropWhile_append_cons {c : Char} (hc : p c = false) (cs ds : List Char) :
    (cs ++ c :: ds).dropWhile p = cs.dropWhile p ++ c :: ds := by
  have hne : ¬p c = true := by rw [hc]; decide
  rw [dropWhile_append, dropWhile_cons_of_neg hne]
  split
  next hnil => rw [isEmpty_iff.1 hnil, nil_append]
  next => rfl

theorem dropAround_append_cons {c : Char} (hc : p c = false) (cs ds : List Char) :
    dropAround p (cs ++ c :: ds) = cs.dropWhile p ++ c :: dropEndWhile p ds := by
  rw [dropAround, dropWhile_append_cons hc, dropEndWhile, reverse_append, reverse_cons,
    append_assoc, singleton_append, dropWhile_append_cons hc, reverse_append,
    reverse_cons, reverse_reverse, append_assoc]
  rfl

def fields (p : Char → Bool) (sep : Char) (cs : List Char) : List (List Char) :=
  ((splitOnChar sep cs).map (dropAround p)).filter (· ≠ [])

theorem fields_append_cons {cs : List Char} (h : sep ∉ cs) (ds : List Char) :
    fields p sep (cs ++ sep :: ds) = [dropAround p cs].filter (· ≠ []) ++ fields p sep ds := by
  rw [fields, splitOnChar_append_cons h, map_cons, ← singleton_append, filter_append]
  rfl

theorem fields_cons_of_pos {c : Char} (hc : p c = true) (cs : List Char) :
    fields p sep (c :: cs) = fields p sep cs := by
  have hdrop (ds : List Char) : dropAround p (c :: ds) = dropAround p ds :=
    @dropAround_of_pos_append p [c] ds (forall_mem_singleton.2 hc)
  obtain ⟨before, last, hsplit, -⟩ := splitOnChar_append sep cs
  rw [fields, fields, splitOnChar, hsplit]
  split
  · rfl
  · cases before <;> simp [hdrop]

theorem fields_concat_of_pos {c : Char} (hc : p c = true) (cs : List Char) :
    fields p sep (cs ++ [c]) = fields p sep cs := by
  obtain ⟨front, last, hsplit, happend⟩ := splitOnChar_append sep cs
  have hdrop := @dropAround_append_of_pos p last [c] (forall_mem_singleton.2 hc)
  rw [fields, fields, hsplit]
  by_cases hsep : c = sep
  · have hone : splitOnChar sep [c] = [[], []] := if_pos hsep
    have hnil : dropAround p [] = [] := rfl
    simp [happend hone, hnil, filter_cons]
  · have hone : splitOnChar sep [c] = [[c]] := if_neg hsep
    simp [happend hone, hdrop]

theorem fields_dropAround (p : Char → Bool) (sep : Char) (cs : List Char) :
    fields p sep (dropAround p cs) = fields p sep cs := by
  have hfront (cs : List Char) : fields p sep (cs.dropWhile p) = fields p sep cs := by
    induction cs with
    | nil => rfl
    | cons c cs ih =>
      cases hc : p c with
      | false => rw [dropWhile_cons_of_neg (by rw [hc]; decide)]
      | true => rw [dropWhile_cons_of_pos hc, ih, fields_cons_of_pos hc]
  have hback (cs ds : List Char) (h : ∀ c ∈ ds, p c = true) :
      fields p sep (cs ++ ds) = fields p sep cs := by
    induction ds generalizing cs with
    | nil => rw [append_nil]
    | cons c ds ih =>
      obtain ⟨hc, hds⟩ := forall_mem_cons.1 h
      rw [append_cons, ih _ hds, fields_concat_of_pos hc]
  have hcs : dropEndWhile p (cs.dropWhile p) ++ ((cs.dropWhile p).reverse.takeWhile p).reverse =
      cs.dropWhile p := by
    rw [dropEndWhile, ← reverse_append, takeWhile_append_dropWhile, reverse_reverse]
  have hends : ∀ c ∈ ((cs.dropWhile p).reverse.takeWhile p).reverse, p c = true := fun c hc =>
    all_eq_true.1 all_takeWhile c (mem_reverse.1 hc)
  rw [dropAround, ← hback _ _ hends, hcs, hfront]

end Text

/-! ## The names of a list -/

open Text

namespace Package

variable {gap gap' name : List Char}

def parameterNames (cs : List Char) : List String := (parametersOf (String.ofList cs)).map Parameter.name

def fieldName (cs : List Char) : String :=
  String.ofList (dropAround isBlank (cs.takeWhile (· ≠ ':')))

theorem takeWhile_ne_append {sep : Char} {cs : List Char} (h : sep ∉ cs) (ds : List Char) :
    (cs ++ ds).takeWhile (· ≠ sep) = cs ++ ds.takeWhile (· ≠ sep) :=
  takeWhile_append_of_pos fun _ hc => decide_eq_true fun heq => h (heq ▸ hc)

theorem fieldName_of_not_mem {cs : List Char} (h : ':' ∉ cs) :
    fieldName cs = String.ofList (dropAround isBlank cs) := by
  have htake := takeWhile_ne_append h []
  rw [takeWhile_nil, append_nil] at htake
  rw [fieldName, htake]

theorem parameterOf_name (cs : List Char) : (parameterOf (String.ofList cs)).name = fieldName cs := by
  rw [parameterOf, splitChar, String.toList_ofList]
  by_cases h : ':' ∈ cs
  · obtain ⟨before, behind, rfl, hbefore⟩ := eq_append_cons_of_mem h
    have htake : (before ++ ':' :: behind).takeWhile (· ≠ ':') = before := by
      rw [takeWhile_ne_append hbefore, takeWhile_cons_of_neg (by decide), append_nil]
    obtain ⟨first, last, hsplit, -⟩ := splitOnChar_append ':' behind
    rw [splitOnChar_append_cons hbefore, hsplit, fieldName, htake]
    cases first <;> simp [trim]
  · rw [splitOnChar_of_not_mem h, fieldName_of_not_mem h]
    simp [trim]

/-- **The names of a list are those of its fields** that are not blank. -/
theorem map_splitChar {β : Type} (sep : Char) (cs : List Char) {f : List Char → β} {g : String → β}
    (h : ∀ ds, g (String.ofList ds) = f (dropAround isBlank ds)) :
    ((splitChar sep (trim (String.ofList cs))).filter (trim · != "")).map g =
      (fields isBlank sep cs).map f := by
  have hempty (ds : List Char) : (String.ofList ds != "") = decide (ds ≠ []) := by
    cases ds <;> simp
  rw [← fields_dropAround, fields, splitChar, trim, String.toList_ofList, String.toList_ofList]
  induction splitOnChar sep (dropAround isBlank cs) with
  | nil => rfl
  | cons field fields ih =>
    simp only [map_cons, filter_cons, trim, String.toList_ofList, hempty] at ih ⊢
    split
    · rw [map_cons, map_cons, ih, h]
    · exact ih

theorem parameterNames_eq (cs : List Char) :
    parameterNames cs = (fields isBlank ',' cs).map fieldName := by
  rw [parameterNames, parametersOf, filter_map, map_map, map_map]
  refine map_splitChar ',' cs fun ds => ?_
  rw [← parameterOf_name, Function.comp, Function.comp, trim, String.toList_ofList]

theorem parameterNames_blank (h : ∀ c ∈ gap, isBlank c = true) :
    parameterNames gap = [] := by
  have hcomma : ',' ∉ gap := fun hmem => absurd (h _ hmem) (by decide)
  have htrim : dropAround isBlank gap = [] := @dropAround_append_of_pos _ [] gap h
  rw [parameterNames_eq, fields, splitOnChar_of_not_mem hcomma, map_singleton, htrim]
  rfl

theorem field_of_name (hgap : ∀ c ∈ gap, isBlank c = true)
    (hname : ∀ c ∈ name, isWordChar c = true) (hgap' : ∀ c ∈ gap', isBlank c = true) :
    ',' ∉ gap ++ (name ++ gap') ∧ dropAround isBlank (gap ++ (name ++ gap')) = name ∧
      fieldName name = String.ofList name := by
  have hplain : dropAround isBlank name = name :=
    Number.dropAround_of_forall fun c hc => isBlank_of_isNameChar (hname c hc)
  refine ⟨?_, ?_, ?_⟩
  · rw [mem_append, mem_append, not_or, not_or]
    exact ⟨fun h => absurd (hgap _ h) (by decide), fun h => absurd (hname _ h) (by decide),
      fun h => absurd (hgap' _ h) (by decide)⟩
  · rw [dropAround_of_pos_append hgap, dropAround_append_of_pos hgap', hplain]
  · rw [fieldName_of_not_mem fun h => absurd (hname _ h) (by decide), hplain]

theorem parameterNames_field (hgap : ∀ c ∈ gap, isBlank c = true)
    (hname : name ≠ [] ∧ ∀ c ∈ name, isWordChar c = true)
    (hgap' : ∀ c ∈ gap', isBlank c = true) :
    parameterNames (gap ++ (name ++ gap')) = [String.ofList name] := by
  obtain ⟨hcomma, htrim, hfield⟩ := field_of_name hgap hname.2 hgap'
  rw [parameterNames_eq, fields, splitOnChar_of_not_mem hcomma, map_singleton, htrim,
    filter_cons, if_pos (decide_eq_true hname.1), filter_nil, map_singleton, hfield]

theorem parameterNames_comma (hgap : ∀ c ∈ gap, isBlank c = true)
    (hname : name ≠ [] ∧ ∀ c ∈ name, isWordChar c = true)
    (hgap' : ∀ c ∈ gap', isBlank c = true) (rest : List Char) :
    parameterNames (gap ++ (name ++ (gap' ++ ',' :: rest))) =
      String.ofList name :: parameterNames rest := by
  obtain ⟨hcomma, htrim, hfield⟩ := field_of_name hgap hname.2 hgap'
  have hassoc : gap ++ (name ++ (gap' ++ ',' :: rest)) = gap ++ (name ++ gap') ++ ',' :: rest := by simp
  rw [hassoc, parameterNames_eq, parameterNames_eq, fields_append_cons hcomma, htrim,
    filter_cons, if_pos (decide_eq_true hname.1), filter_nil, map_append,
    map_singleton, hfield]
  rfl

theorem exists_mem_splitOnChar {sep c : Char} (hc : c ≠ sep) (cs ds : List Char) :
    ∃ before behind, before ++ c :: behind ∈ splitOnChar sep (cs ++ c :: ds) ∧ before ⊆ cs := by
  obtain ⟨front, last, hsplit, happend⟩ := splitOnChar_append sep cs
  obtain ⟨piece, more, hpiece, -⟩ := splitOnChar_parts sep ds
  have hhead : splitOnChar sep (c :: ds) = (c :: piece) :: more := by
    rw [splitOnChar, if_neg hc, hpiece]
  have hlast : last ∈ splitOnChar sep cs := by simp [hsplit]
  exact ⟨last, piece, by simp [happend hhead], (splitOnChar_piece hlast).2.subset⟩

/-- **Nothing goes unseen.** A character that is neither blank nor a separator is in one of the names, if
no colon comes before it. -/
theorem exists_parameterName {cs ds : List Char} {c : Char} (hcolon : ':' ∉ cs)
    (hblank : isBlank c = false) (hcomma : c ≠ ',') (hc : c ≠ ':') :
    ∃ name ∈ parameterNames (cs ++ c :: ds), c ∈ name.toList := by
  obtain ⟨before, behind, hmem, hsub⟩ := exists_mem_splitOnChar hcomma cs ds
  have hcolon' : ':' ∉ before.dropWhile isBlank := fun h => hcolon (hsub ((dropWhile_suffix _).subset h))
  refine ⟨fieldName (dropAround isBlank (before ++ c :: behind)), ?_, ?_⟩
  · rw [parameterNames_eq]
    refine mem_map_of_mem (mem_filter.2 ⟨mem_map_of_mem hmem, decide_eq_true ?_⟩)
    rw [dropAround_append_cons hblank]
    simp
  · have hpos : decide (c ≠ ':') = true := decide_eq_true hc
    rw [fieldName, dropAround_append_cons hblank, takeWhile_ne_append hcolon',
      @List.takeWhile_cons_of_pos _ (fun d => decide (d ≠ ':')) _ _ hpos,
      dropAround_append_cons hblank, String.toList_ofList]
    exact mem_append_right _ mem_cons_self

end Package

end ScriptWorkbench
