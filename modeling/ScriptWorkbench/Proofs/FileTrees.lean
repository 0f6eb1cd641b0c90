/-
Files in a tree.

Each entry of a file system has names of its own, and stands in a directory. In such a tree a path that is
continued with the names of an entry leads to that entry (`IsTree.follow_below`), and this does not depend on
the order in which the entries are enumerated. Whatever is written and made, it stays a tree.
-/
import ScriptWorkbench.Proofs.ParameterLists

namespace ScriptWorkbench

open List

namespace Path

variable {name : String} {names : List String} {p : Path}

/-! ## Paths and their texts -/

/-- A name as it stands between the slashes of a text. -/
structure IsPart (name : String) : Prop where
  nonempty : name ≠ ""
  noDot : name ≠ "."
  slash : '/' ∉ name.toList

instance (name : String) : Decidable (IsPart name) :=
  decidable_of_iff (name ≠ "" ∧ name ≠ "." ∧ '/' ∉ name.toList)
    ⟨fun h => ⟨h.1, h.2.1, h.2.2⟩, fun h => ⟨h.nonempty, h.noDot, h.slash⟩⟩

/-- A path as it is read from a text. -/
structure Tidy (p : Path) : Prop where
  root : p.root ∈ ["", "/", "//"]
  parts : ∀ name ∈ p.names, IsPart name

def extend (p : Path) (names : List String) : Path := ⟨p.root, p.names ++ names⟩

theorem Tidy.extend (h : p.Tidy) (hnames : ∀ name ∈ names, IsPart name) : (p.extend names).Tidy where
  root := h.root
  parts name hname := (mem_append.1 hname).elim (h.parts name) (hnames name)

theorem isPart_of_mem_splitNames {text : String} (h : name ∈ splitNames text) :
    IsPart name ∧ name.toList ⊆ text.toList := by
  obtain ⟨hmem, hkept⟩ := mem_filter.1 h
  obtain ⟨piece, hpiece, rfl⟩ := mem_map.1 hmem
  rw [Bool.and_eq_true, bne_iff_ne, bne_iff_ne] at hkept
  obtain ⟨hslash, hpart⟩ := Text.splitOnChar_piece hpiece
  have hsub := hpart.subset
  rw [← String.toList_ofList (l := piece)] at hslash hsub
  exact ⟨⟨hkept.1, hkept.2, hslash⟩, hsub⟩

theorem splitNames_slash (text : String) : splitNames ("/" ++ text) = splitNames text := by
  rw [splitNames, Text.splitChar, String.toList_append]
  rfl

theorem splitNames_root (h : p.Tidy) (text : String) :
    splitNames (p.root ++ text) = splitNames text := by
  have hroot := h.root
  simp only [mem_cons, not_mem_nil, or_false] at hroot
  obtain hroot | hroot | hroot := hroot <;> rw [hroot]
  · rw [String.empty_append]
  · exact splitNames_slash text
  · have htwo : "//" ++ text = "/" ++ ("/" ++ text) := by
      rfl
    rw [htwo, splitNames_slash, splitNames_slash]

theorem splitNames_of_isPart (h : IsPart name) : splitNames name = [name] := by
  have hkept : (name != "" && name != ".") = true := by
    rw [Bool.and_eq_true, bne_iff_ne, bne_iff_ne]
    exact ⟨h.nonempty, h.noDot⟩
  rw [splitNames, Text.splitChar, Text.splitOnChar_of_not_mem h.slash, map_singleton,
    String.ofList_toList, filter_cons, if_pos hkept, filter_nil]

theorem splitNames_intercalate (h : ∀ name ∈ names, IsPart name) :
    splitNames ("/".intercalate names) = names := by
  induction names with
  | nil => rfl
  | cons name names ih =>
    obtain ⟨hname, hnames⟩ := forall_mem_cons.1 h
    cases names with
    | nil => rw [String.intercalate_singleton, splitNames_of_isPart hname]
    | cons next names =>
      have hfirst : splitNames (name ++ "/" ++ "/".intercalate (next :: names)) =
          splitNames name ++ splitNames ("/".intercalate (next :: names)) := by
        rw [splitNames, Text.splitChar, String.toList_append, String.toList_append, append_assoc]
        change filter _ (map _ (Text.splitOnChar _ (name.toList ++ '/' :: _))) = _
        rw [Text.splitOnChar_append_cons hname.slash, map_cons, ← singleton_append,
          filter_append, splitNames, Text.splitChar, Text.splitOnChar_of_not_mem hname.slash]
        rfl
      rw [String.intercalate_cons_cons, hfirst, ih hnames, splitNames_of_isPart hname]
      rfl

theorem splitNames_toString (h : p.Tidy) : splitNames p.toString = p.names := by
  rw [toString]
  split
  next hempty =>
    rw [Bool.and_eq_true, List.isEmpty_iff] at hempty
    rw [hempty.2]
    decide
  · rw [splitNames_root h, splitNames_intercalate h.parts]

theorem startsWith_slash (c : Char) (cs : List Char) :
    (Text.dropPrefix? "/".toList (c :: cs)).isSome = decide (c = '/') := by
  change (Text.dropPrefix? ['/'] (c :: cs)).isSome = _
  rw [Text.dropPrefix?]
  by_cases hc : c = '/'
  · rw [hc]
    rfl
  · rw [if_neg (Ne.symm hc), decide_eq_false hc]
    rfl

theorem intercalate_cons_toList (sep name : String) (names : List String) :
    ∃ rest, (sep.intercalate (name :: names)).toList = name.toList ++ rest := by
  cases names with
  | nil => exact ⟨[], by rw [String.intercalate_singleton, append_nil]⟩
  | cons next names =>
    rw [String.intercalate_cons_cons, String.toList_append, String.toList_append, append_assoc]
    exact ⟨_, rfl⟩

theorem startsWith_toString (h : p.Tidy) : Text.startsWith p.toString "/" = (p.root != "") := by
  have hroot := h.root
  simp only [mem_cons, not_mem_nil, or_false] at hroot
  rw [Text.startsWith, toString]
  obtain hroot | hroot | hroot := hroot <;> rw [hroot]
  · cases hnames : p.names with
    | nil => decide
    | cons name names =>
      have hname : IsPart name := h.parts name (by rw [hnames]; exact mem_cons_self)
      obtain ⟨c, cs, hcs⟩ : ∃ c cs, name.toList = c :: cs :=
        exists_cons_of_ne_nil (by simpa using hname.nonempty)
      have hc : c ≠ '/' := fun heq => hname.slash (by rw [hcs, heq]; exact mem_cons_self)
      obtain ⟨rest, hrest⟩ := intercalate_cons_toList "/" name names
      rw [if_neg (by simp), String.empty_append, hrest, hcs, cons_append, startsWith_slash,
        decide_eq_false hc]
      rfl
  · rw [if_neg (by simp), String.toList_append]
    exact startsWith_slash '/' _
  · rw [if_neg (by simp), String.toList_append]
    exact startsWith_slash '/' _

theorem zero_mem_toString_iff (h : p.Tidy) :
    Char.ofNat 0 ∈ p.toString.toList ↔ ∃ name ∈ p.names, Char.ofNat 0 ∈ name.toList := by
  have hroot : Char.ofNat 0 ∉ p.root.toList := by
    have hroots : ∀ root ∈ ["", "/", "//"], Char.ofNat 0 ∉ root.toList := by decide
    exact hroots _ h.root
  rw [toString]
  split
  next hempty =>
    rw [Bool.and_eq_true, List.isEmpty_iff] at hempty
    rw [hempty.2]
    decide
  · rw [String.toList_append, mem_append, or_iff_right hroot, mem_intercalate_iff (by decide)]

theorem toString_ne_empty (h : p.Tidy) : p.toString ≠ "" := by
  intro hempty
  have hnames : p.names = [] := by
    rw [← splitNames_toString h, hempty]
    rfl
  have hroots : ∀ root ∈ ["", "/", "//"], toString ⟨root, []⟩ ≠ "" := by decide
  refine hroots p.root h.root ?_
  rw [← hnames]
  exact hempty

end Path

namespace Files

variable {e : Entry} {fs : Files} {here there names rel : List String} {p : Path} {place : Place}

/-! ## Trees -/

def IsName (name : String) : Prop :=
  Path.IsPart name ∧ name ≠ ".." ∧ Char.ofNat 0 ∉ name.toList ∧ ¬nameLimit < name.utf8ByteSize

instance (name : String) : Decidable (IsName name) := inferInstanceAs (Decidable (_ ∧ _))

/-- A file system in which no two entries have the same names, and each stands in a directory. -/
structure IsTree (fs : Files) : Prop where
  distinct : (fs.entries.map Prod.fst).Nodup
  named : ∀ x ∈ fs.entries, x.1 ≠ [] ∧ ∀ name ∈ x.1, IsName name
  above : ∀ x ∈ fs.entries, fs.entry? x.1.dropLast = some .directory

theorem lookup_eq_some_of_mem {entries : List (List String × Entry)}
    (hkeys : (entries.map Prod.fst).Nodup) (h : (names, e) ∈ entries) :
    entries.lookup names = some e := by
  induction entries with
  | nil => cases h
  | cons x entries ih =>
    rw [map_cons, nodup_cons] at hkeys
    obtain rfl | h := mem_cons.1 h
    · exact lookup_cons_self
    · have hne : (names == x.1) = false := by
        refine beq_false_of_ne ?_
        rintro rfl
        exact hkeys.1 (mem_map.2 ⟨_, h, rfl⟩)
      rw [lookup_cons, hne]
      exact ih hkeys.2 h

namespace IsTree

theorem entry_eq_some_iff (h : fs.IsTree) (hnames : names ≠ []) :
    fs.entry? names = some e ↔ (names, e) ∈ fs.entries := by
  rw [ entry?, if_neg (by rwa [List.isEmpty_iff])]
  exact ⟨mem_of_lookup, lookup_eq_some_of_mem h.distinct⟩

theorem entry_dropLast (h : fs.IsTree) (he : fs.entry? names = some e) :
    fs.entry? names.dropLast = some .directory := by
  by_cases hnames : names = []
  · rw [hnames]
    rfl
  · exact h.above _ ((h.entry_eq_some_iff hnames).1 he)

theorem isName (h : fs.IsTree) (he : fs.entry? names = some e) : ∀ name ∈ names, IsName name := by
  by_cases hnames : names = []
  · rw [hnames]
    exact fun _ hmem => absurd hmem not_mem_nil
  · exact (h.named _ ((h.entry_eq_some_iff hnames).1 he)).2

theorem entry_above (h : fs.IsTree) (he : fs.entry? (there ++ rel) = some e) (hrel : rel ≠ []) :
    fs.entry? there = some .directory := by
  generalize hlen : rel.length = n
  induction n generalizing rel e with
  | zero => exact absurd (length_eq_zero_iff.1 hlen) hrel
  | succ n ih =>
    have hlast := h.entry_dropLast he
    rw [dropLast_append_of_ne_nil hrel] at hlast
    by_cases hone : rel.dropLast = []
    · rwa [hone, append_nil] at hlast
    · exact ih hlast hone (by rw [length_dropLast, hlen, Nat.add_sub_cancel])

/-- **The names of an entry lead to it,** from every directory it is below. -/
theorem follow_below (h : fs.IsTree) (he : fs.entry? (there ++ rel) = some e) :
    fs.follow there rel = .ok (.occupied (there ++ rel) e) := by
  induction rel generalizing there with
  | nil =>
    rw [append_nil] at he ⊢
    rw [follow, he]
  | cons name rel ih =>
    obtain ⟨-, hparent, -, hshort⟩ := h.isName he name (by simp)
    have hstep : Path.stepInto there name = there ++ [name] := by
      rw [Path.stepInto, if_neg (by rwa [beq_iff_eq])]
    have hsplit : there ++ name :: rel = there ++ [name] ++ rel := by simp
    rw [hsplit] at he ⊢
    have hnext : ∃ d, fs.entry? (there ++ [name]) = some d := by
      cases rel with
      | nil => exact ⟨e, by rwa [append_nil] at he⟩
      | cons next rel => exact ⟨_, h.entry_above he (by simp)⟩
    obtain ⟨d, hd⟩ := hnext
    have hhere : fs.entry? there = some .directory := by
      rw [append_assoc] at he
      exact h.entry_above he (by simp)
    rw [← hstep] at hd he ⊢
    rw [follow_of_entry hhere hshort hd]
    exact ih he

end IsTree

theorem follow_append {path : List String} (h : fs.follow here path = .ok (.occupied there e))
    (rel : List String) : fs.follow here (path ++ rel) = fs.follow there rel := by
  induction path generalizing here with
  | nil =>
    obtain ⟨d, -, hplace⟩ := follow_nil_eq_ok h
    cases hplace
    rfl
  | cons name path ih =>
    obtain ⟨hhere, hshort, ⟨d, hd, hgoes⟩ | ⟨-, -, hplace⟩⟩ := follow_cons_eq_ok h
    · rw [cons_append, follow_of_entry hhere hshort hd]
      exact ih hgoes
    · cases hplace

theorem reach_extend (hp : p.Tidy) (hrel : ∀ name ∈ rel, Path.IsPart name)
    (h : fs.reach p.toString = .ok (.occupied there e)) :
    fs.reach (p.extend rel).toString = fs.follow there rel := by
  have hq := hp.extend hrel
  have hroot : (p.extend rel).root = p.root := rfl
  have hnames : (p.extend rel).names = p.names ++ rel := rfl
  rw [reach, Path.splitNames_toString hp, Path.startsWith_toString hp] at h
  rw [reach, Path.splitNames_toString hq, Path.startsWith_toString hq, hroot, hnames]
  split at h
  next habs => rw [if_pos habs, follow_append h]
  next habs =>
    rw [if_neg habs]
    split at h
    next hadrift =>
      rw [if_pos hadrift]
      rw [followAdrift.eq_def] at h
      split at h
      · cases h
      next rest hsplit =>
        rw [hsplit]
        exact follow_append h rel
      · cases h
    next hadrift => rw [if_neg hadrift, follow_append h]

/-- **A path continued with the names of an entry leads to it.** Only the length of its text can be in the
way. -/
theorem IsTree.reach_below (htree : fs.IsTree) (hp : p.Tidy)
    (h : fs.locate p.toString = .ok (.occupied there .directory))
    (he : fs.entry? (there ++ rel) = some e) :
    fs.reach (p.extend rel).toString = .ok (.occupied (there ++ rel) e) ∧
      (Spelled (p.extend rel).toString ↔ (p.extend rel).toString.utf8ByteSize < pathLimit) := by
  obtain ⟨⟨hzero, -, -⟩, hreach, -⟩ := locate_eq_ok h
  have hparts : ∀ name ∈ rel, IsName name := fun name hname => htree.isName he name (mem_append_right _ hname)
  have hq := hp.extend fun name hname => (hparts name hname).1
  refine ⟨by rw [reach_extend hp (fun name hname => (hparts name hname).1) hreach, htree.follow_below he],
    fun hspelled => hspelled.2.2, fun hshort => ⟨?_, Path.toString_ne_empty hq, hshort⟩⟩
  rw [contains_eq_mem, decide_eq_false_iff_not, Path.zero_mem_toString_iff hq]
  rw [contains_eq_mem, decide_eq_false_iff_not, Path.zero_mem_toString_iff hp] at hzero
  rintro ⟨name, hname, hmem⟩
  obtain hname | hname := mem_append.1 hname
  · exact hzero ⟨name, hname, hmem⟩
  · exact (hparts name hname).2.2.1 hmem

/-! ## Trees stay trees -/

theorem IsTree.distinct_put (h : fs.IsTree) (names : List String) (e : Entry) :
    ((fs.put names e).entries.map Prod.fst).Nodup := by
  rw [Files.put]
  split
  · have hkeys : (fun x : List String × Entry => (if x.1 == names then (names, e) else x).1) =
        Prod.fst := by
      funext x
      split
      next heq => exact (beq_iff_eq.1 heq).symm
      next => rfl
    simp only [map_map, Function.comp_def]
    rw [hkeys]
    exact h.distinct
  next hfree =>
    rw [map_append, nodup_append]
    refine ⟨h.distinct, by simp, fun key hkey other hother heq => hfree ?_⟩
    obtain ⟨x, hx, rfl⟩ := mem_map.1 hkey
    obtain rfl : other = names := mem_singleton.1 hother
    have hthere : fs.entries.lookup other = some x.2 := lookup_eq_some_of_mem h.distinct (by rwa [← heq])
    rw [hthere]
    rfl

theorem mem_entries_put {x : List String × Entry} (h : x ∈ (fs.put names e).entries) :
    x ∈ fs.entries ∨ x.1 = names := by
  rw [put] at h
  split at h
  · obtain ⟨y, hy, rfl⟩ := mem_map.1 h
    split
    · exact .inr rfl
    · exact .inl hy
  · exact (mem_append.1 h).imp_right fun hone => by rw [mem_singleton.1 hone]

def InDirectory (fs : Files) (names : List String) : Prop :=
  ∃ there name, names = there ++ [name] ∧ IsName name ∧ fs.entry? there = some .directory

theorem IsTree.put (h : fs.IsTree) (hplace : fs.entry? names ≠ some .directory)
    (hnames : (fs.entry? names).isSome ∨ fs.InDirectory names) (e : Entry) :
    (fs.put names e).IsTree := by
  have htop : names ≠ [] := by
    rintro rfl
    exact hplace rfl
  have hnew : (∀ name ∈ names, IsName name) ∧ fs.entry? names.dropLast = some .directory := by
    obtain hold | ⟨there, name, rfl, hname, hthere⟩ := hnames
    · obtain ⟨d, hd⟩ := Option.isSome_iff_exists.1 hold
      exact ⟨h.isName hd, h.entry_dropLast hd⟩
    · refine ⟨fun n hn => (mem_append.1 hn).elim (h.isName hthere n) fun hone => ?_, ?_⟩
      · rwa [mem_singleton.1 hone]
      · rwa [dropLast_concat]
  refine ⟨h.distinct_put names e, fun x hx => ?_, fun x hx => (keeps_put hplace e).directory _ ?_⟩
  · obtain hold | heq := mem_entries_put hx
    · exact h.named x hold
    · rw [heq]
      exact ⟨htop, hnew.1⟩
  · obtain hold | heq := mem_entries_put hx
    · exact h.above x hold
    · rw [heq]
      exact hnew.2

theorem IsTree.follow_free (h : fs.IsTree) {path : List String}
    (hpath : ∀ name ∈ path, Path.IsPart name ∧ Char.ofNat 0 ∉ name.toList)
    (hfree : fs.follow here path = .ok (.free names)) : fs.InDirectory names := by
  induction path generalizing here with
  | nil =>
    obtain ⟨d, -, hplace⟩ := follow_nil_eq_ok hfree
    cases hplace
  | cons name path ih =>
    obtain ⟨hname, hpath⟩ := forall_mem_cons.1 hpath
    obtain ⟨hhere, hshort, ⟨d, hd, hgoes⟩ | ⟨-, hnone, hplace⟩⟩ := follow_cons_eq_ok hfree
    · exact ih hpath hgoes
    · cases hplace
      rw [Path.stepInto] at hnone ⊢
      split at hnone
      next hparent =>
        rw [h.entry_dropLast hhere] at hnone
        cases hnone
      next hparent =>
        rw [if_neg hparent]
        rw [beq_iff_eq] at hparent
        exact ⟨here, name, rfl, ⟨hname.1, hparent, hname.2, hshort⟩, hhere⟩

theorem IsTree.inDirectory (h : fs.IsTree) {path : String}
    (hfree : fs.locate path = .ok (.free names)) : fs.InDirectory names := by
  obtain ⟨⟨hzero, -, -⟩, hreach, -⟩ := locate_eq_ok hfree
  rw [contains_eq_mem, decide_eq_false_iff_not] at hzero
  have hparts : ∀ name ∈ Path.splitNames path, Path.IsPart name ∧ Char.ofNat 0 ∉ name.toList := by
    intro name hname
    obtain ⟨hpart, hsub⟩ := Path.isPart_of_mem_splitNames hname
    exact ⟨hpart, fun hmem => hzero (hsub hmem)⟩
  rw [reach] at hreach
  split at hreach
  · exact h.follow_free hparts hreach
  · split at hreach
    · rw [followAdrift.eq_def] at hreach
      split at hreach
      · cases hreach
      next rest hsplit =>
        rw [hsplit] at hparts
        exact h.follow_free (forall_mem_cons.1 hparts).2 hreach
      · cases hreach
    · exact h.follow_free hparts hreach

theorem IsTree.writeText (h : fs.IsTree) {path text : String} {fs' : Files}
    (hwrite : fs.writeText path text = .ok fs') : fs'.IsTree := by
  obtain ⟨place, names, hplace, hnames, hentry, rfl⟩ := writeText_eq_put hwrite
  refine h.put hentry ?_ _
  cases place with
  | occupied ns d =>
    cases hnames
    exact .inl (by rw [locate_entry hplace rfl]; rfl)
  | free ns =>
    cases hnames
    exact .inr (h.inDirectory hplace)
  | removed => cases hnames

theorem IsTree.makeDirectory (h : fs.IsTree) {path : String} {fs' : Files}
    (hmake : fs.makeDirectory path = .ok fs') : fs'.IsTree := by
  cases hplace : fs.locate path with
  | error e => rw [Files.makeDirectory, hplace] at hmake; cases hmake
  | ok place =>
    rw [Files.makeDirectory, hplace] at hmake
    cases place with
    | occupied names e | removed => cases hmake
    | free names =>
      cases hmake
      have hfree : fs.entry? names = none := locate_entry hplace rfl
      exact h.put (by rw [hfree]; rintro ⟨⟩) (.inr (h.inDirectory hplace)) _

theorem IsTree.ensureDirectory (h : fs.IsTree) {path : String} {fs' : Files}
    (hmake : fs.ensureDirectory path = .ok fs') : fs'.IsTree := by
  rw [Files.ensureDirectory] at hmake
  split at hmake
  next hmade =>
    cases hmake
    exact h.makeDirectory hmade
  next =>
    split at hmake
    · cases hmake
      exact h
    · cases hmake

theorem IsTree.ensureDirectories (h : fs.IsTree) (p : Path) : (fs.ensureDirectories p).2.IsTree := by
  fun_induction Files.ensureDirectories fs p with
  | case1 p fs' hmake => exact h.makeDirectory hmake
  | case2 p path hmake htop | case6 p e hmake hother hthere | case7 p e hmake hother hthere => exact h
  | case3 p path hmake hnames e fs' habove ih | case5 p path hmake hnames fs' habove e hlast ih =>
    rwa [habove] at ih
  | case4 p path hmake hnames fs' habove fs'' hlast ih =>
    rw [habove] at ih
    exact ih.ensureDirectory hlast

/-! ## The order of the entries -/

/-- File systems that hold the same, in whatever order. -/
structure Alike (fs fs' : Files) : Prop where
  entry : ∀ names, fs'.entry? names = fs.entry? names
  cwd : fs'.cwd = fs.cwd
  adrift : fs'.adrift = fs.adrift

theorem Alike.symm {fs' : Files} (h : fs.Alike fs') : fs'.Alike fs :=
  ⟨fun names => (h.entry names).symm, h.cwd.symm, h.adrift.symm⟩

theorem IsTree.reorder {entries : List (List String × Entry)} (h : fs.IsTree)
    (horder : fs.entries.Perm entries) :
    fs.Alike { fs with entries } ∧ Files.IsTree { fs with entries } := by
  have hdistinct : (entries.map Prod.fst).Nodup := (horder.map Prod.fst).nodup h.distinct
  have hentry : ∀ names, entry? { fs with entries } names = fs.entry? names := by
    intro names
    rw [ entry?, entry?]
    split
    · rfl
    · refine Option.ext fun e => ⟨fun he => ?_, fun he => ?_⟩
      · exact lookup_eq_some_of_mem h.distinct (horder.mem_iff.2 (mem_of_lookup he))
      · exact lookup_eq_some_of_mem hdistinct (horder.mem_iff.1 (mem_of_lookup he))
  refine ⟨⟨hentry, rfl, rfl⟩, hdistinct, fun x hx => h.named x (horder.mem_iff.2 hx), fun x hx => ?_⟩
  rw [hentry]
  exact h.above x (horder.mem_iff.2 hx)

namespace Alike

variable {fs' : Files} {path : String}

theorem follow (h : fs.Alike fs') (path : List String) :
    fs'.follow here path = fs.follow here path := by
  induction path generalizing here with
  | nil => rw [Files.follow, Files.follow, h.entry]
  | cons name path ih => simp only [Files.follow, h.entry, ih]

theorem locate (h : fs.Alike fs') (path : String) : fs'.locate path = fs.locate path := by
  have hadrift (names : List String) : fs'.followAdrift names = fs.followAdrift names := by
    rw [followAdrift.eq_def, followAdrift.eq_def, h.cwd]
    split
    · rfl
    · exact h.follow _
    · rfl
  simp only [Files.locate, h.follow, h.cwd, h.adrift, hadrift]

theorem put (h : fs.Alike fs') (names : List String) (e : Entry) :
    (fs.put names e).Alike (fs'.put names e) where
  entry other := by
    by_cases hother : other = names
    · subst hother
      by_cases htop : other = []
      · rw [htop]
        rfl
      · rw [entry_put_self htop, entry_put_self htop]
    · rw [entry_put_of_ne hother, entry_put_of_ne hother, h.entry]
  cwd := by rw [put_cwd, put_cwd, h.cwd]
  adrift := by rw [put_adrift, put_adrift, h.adrift]

def Results : Except FileError Files → Except FileError Files → Prop
  | .ok fs, .ok fs' => fs.Alike fs'
  | .error e, .error e' => e = e'
  | _, _ => False

theorem Results.error {e : FileError} {r : Except FileError Files} (h : Results (.error e) r) :
    r = .error e := by
  cases r with
  | error e' => rw [show e = e' from h]
  | ok fs => cases h

theorem Results.ok {r : Except FileError Files} (h : Results (.ok fs) r) :
    ∃ fs', r = .ok fs' ∧ fs.Alike fs' := by
  cases r with
  | error e => cases h
  | ok fs' => exact ⟨fs', rfl, h⟩

theorem writeText (h : fs.Alike fs') (path text : String) :
    Results (fs.writeText path text) (fs'.writeText path text) := by
  rw [Files.writeText, Files.writeText, h.locate]
  cases fs.locate path with
  | error e => rfl
  | ok place =>
    cases place with
    | occupied names e =>
      cases e with
      | file c => exact h.put names _
      | directory => rfl
    | free names =>
      split
      · rfl
      · exact h.put names _
    | removed => rfl

theorem makeDirectory (h : fs.Alike fs') (path : String) :
    Results (fs.makeDirectory path) (fs'.makeDirectory path) := by
  rw [Files.makeDirectory, Files.makeDirectory, h.locate]
  cases fs.locate path with
  | error e => rfl
  | ok place =>
    cases place with
    | occupied names e | removed => rfl
    | free names => exact h.put names _

theorem isDirectory (h : fs.Alike fs') (path : String) : fs'.isDirectory path = fs.isDirectory path := by
  rw [Files.isDirectory, Files.isDirectory, find?, find?, lookUp, lookUp, h.locate]

theorem ensureDirectory (h : fs.Alike fs') (path : String) :
    Results (fs.ensureDirectory path) (fs'.ensureDirectory path) := by
  have hmake := h.makeDirectory path
  rw [Files.ensureDirectory, Files.ensureDirectory, h.isDirectory]
  cases hfs : fs.makeDirectory path with
  | ok made =>
    rw [hfs] at hmake
    obtain ⟨made', hmade', halike⟩ := hmake.ok
    rw [hmade']
    exact halike
  | error e =>
    rw [hfs] at hmake
    rw [hmake.error]
    dsimp only
    split
    · exact h
    · rfl

theorem ensureDirectories (h : fs.Alike fs') (p : Path) :
    ∃ made', fs'.ensureDirectories p = ((fs.ensureDirectories p).1, made') ∧
      (fs.ensureDirectories p).2.Alike made' := by
  have hfails {p : Path} {e : FileError} (hmake : fs.makeDirectory p.toString = .error e) :
      fs'.makeDirectory p.toString = .error e := by
    have halike := h.makeDirectory p.toString
    rw [hmake] at halike
    exact halike.error
  fun_induction Files.ensureDirectories fs p with
  | case1 p made hmake =>
    have halike := h.makeDirectory p.toString
    rw [hmake] at halike
    obtain ⟨made', hmade', halike⟩ := halike.ok
    rw [Files.ensureDirectories, hmade']
    exact ⟨made', rfl, halike⟩
  | case2 p path hmake htop =>
    rw [Files.ensureDirectories, hfails hmake]
    dsimp only
    rw [dif_pos htop]
    exact ⟨fs', rfl, h⟩
  | case3 p path hmake hnames e made habove ih =>
    rw [habove] at ih
    obtain ⟨made', habove', halike⟩ := ih
    rw [Files.ensureDirectories, hfails hmake]
    dsimp only
    rw [dif_neg hnames, habove']
    exact ⟨made', rfl, halike⟩
  | case4 p path hmake hnames made habove last hlast ih =>
    rw [habove] at ih
    obtain ⟨made', habove', halike⟩ := ih
    have hends := halike.ensureDirectory p.toString
    rw [hlast] at hends
    obtain ⟨last', hlast', halike⟩ := hends.ok
    rw [Files.ensureDirectories, hfails hmake]
    dsimp only
    rw [dif_neg hnames, habove']
    dsimp only
    rw [hlast']
    exact ⟨last', rfl, halike⟩
  | case5 p path hmake hnames made habove e hlast ih =>
    rw [habove] at ih
    obtain ⟨made', habove', halike⟩ := ih
    have hends := halike.ensureDirectory p.toString
    rw [hlast] at hends
    rw [Files.ensureDirectories, hfails hmake]
    dsimp only
    rw [dif_neg hnames, habove']
    dsimp only
    rw [hends.error]
    exact ⟨made', rfl, halike⟩
  | case6 p e hother hmake hthere =>
    rw [Files.ensureDirectories, hfails hmake, h.isDirectory, hthere]
    cases e with
    | notFound path => exact absurd rfl (hother path)
    | _ => exact ⟨fs', rfl, h⟩
  | case7 p e hother hmake hthere =>
    rw [Files.ensureDirectories, hfails hmake, h.isDirectory, Bool.eq_false_iff.2 hthere]
    cases e with
    | notFound path => exact absurd rfl (hother path)
    | _ => exact ⟨fs', rfl, h⟩

end Alike

theorem IsTree.put_self (h : fs.IsTree) (hnames : names ≠ []) (he : fs.entry? names = some e) :
    fs.put names e = fs := by
  have hmem := (h.entry_eq_some_iff hnames).1 he
  have hlookup := lookup_eq_some_of_mem h.distinct hmem
  have hmap : fs.entries.map (fun x => if x.1 == names then (names, e) else x) = fs.entries := by
    refine (map_congr_left fun x hx => ?_).trans (map_id _)
    split
    next heq =>
      rw [beq_iff_eq] at heq
      have hx' := lookup_eq_some_of_mem h.distinct hx
      rw [heq, hlookup] at hx'
      rw [← heq, Option.some.inj hx']
      rfl
    next => rfl
  rw [Files.put, hlookup, hmap]
  rfl

theorem IsTree.writeText_self {path text : String} (h : fs.IsTree)
    (hplace : fs.locate path = .ok (.occupied names (.file (.text text)))) :
    fs.writeText path text = .ok fs := by
  have hentry := locate_entry hplace rfl
  rw [writeText_of_file hplace, h.put_self ?_ hentry]
  rintro rfl
  cases hentry

/-- **A text has been written to the path,** under the names. Nothing else has changed. -/
structure Written (fs fs' : Files) (path text : String) (names : List String) : Prop where
  place : ∃ place, fs.locate path = .ok place ∧ place.names? = some names
  ordinary : namesDirectory path = false
  entry : fs'.entry? names = some (.file (.text text))
  others : ∀ ns, ns ≠ names → fs'.entry? ns = fs.entry? ns
  keeps : fs.Keeps fs'
  back : fs'.Keeps fs
  tree : fs'.IsTree

theorem IsTree.written {path text : String} {fs' : Files} (h : fs.IsTree)
    (hwrite : fs.writeText path text = .ok fs') : ∃ names, fs.Written fs' path text names := by
  obtain ⟨place, names, hplace, hnames, hfile, hdir, hwrites⟩ := writeText_eq_ok hwrite
  have hentry : fs.entry? names ≠ some .directory := by rwa [locate_entry hplace hnames]
  have htop : names ≠ [] := by
    rintro rfl
    exact hentry rfl
  have htree := h.writeText hwrite
  rw [hwrites] at hwrite
  cases hwrite
  exact ⟨names, ⟨place, hplace, hnames⟩, hdir, entry_put_self htop _ _,
    fun ns hne => entry_put_of_ne hne _ _, keeps_put hentry _, keeps_of_put_file htop _ _, htree⟩

theorem Written.locate {fs' after : Files} {path text : String} (h : fs.Written fs' path text names)
    (hkeep : fs'.Keeps after) (he : after.entry? names = some (.file (.text text))) :
    after.locate path = .ok (.occupied names (.file (.text text))) := by
  obtain ⟨place, hplace, hnames⟩ := h.place
  exact locate_eq_of_keeps (h.keeps.trans hkeep) he hplace hnames h.ordinary

theorem Written.names_ne {fs₁ fs₂ fs₃ : Files} {path text other text' : String} {names' : List String}
    (h : fs.Written fs₁ path text names) (h' : fs₂.Written fs₃ other text' names')
    (hapart : Path.Apart path other) : names ≠ names' := by
  obtain ⟨place, hplace, hnames⟩ := h.place
  obtain ⟨place', hplace', hnames'⟩ := h'.place
  exact names_ne_of_apart hapart hplace hplace' hnames hnames'

/-! ## Directories that have been made -/

theorem isDirectory_of_makeDirectory {path : String} {fs' : Files}
    (h : fs.makeDirectory path = .ok fs') : fs'.isDirectory path = true := by
  cases hplace : fs.locate path with
  | error e => rw [makeDirectory, hplace] at h; cases h
  | ok place =>
    rw [makeDirectory, hplace] at h
    cases place with
    | occupied names e | removed => cases h
    | free names =>
      cases h
      have hfree : fs.entry? names = none := locate_entry hplace rfl
      have htop : names ≠ [] := by
        rintro rfl
        cases hfree
      obtain ⟨hspelled, hreach, -⟩ := locate_eq_ok hplace
      have hthere := reach_eq_of_keeps (keeps_put (by rw [hfree]; rintro ⟨⟩) _)
        (entry_put_self htop fs .directory) hreach rfl
      rw [isDirectory, find?_of_locate (locate_of_reach hspelled hthere rfl)]
      rfl

theorem isDirectory_of_ensureDirectory {path : String} {fs' : Files}
    (h : fs.ensureDirectory path = .ok fs') : fs'.isDirectory path = true := by
  rw [ensureDirectory] at h
  split at h
  next hmake =>
    cases h
    exact isDirectory_of_makeDirectory hmake
  next =>
    split at h
    next hthere =>
      cases h
      exact hthere
    · cases h

theorem isDirectory_of_ensureDirectories {fs' : Files}
    (h : fs.ensureDirectories p = (.ok (), fs')) : fs'.isDirectory p.toString = true := by
  rw [ensureDirectories] at h
  split at h
  next hmake =>
    cases h
    exact isDirectory_of_makeDirectory hmake
  · split at h
    · cases h
    · split at h
      · cases h
      · split at h
        next hlast =>
          cases h
          exact isDirectory_of_ensureDirectory hlast
        · cases h
  · split at h
    next hthere =>
      cases h
      exact hthere
    · cases h

theorem follow_ne_removed (path : List String) : fs.follow here path ≠ .ok .removed := by
  induction path generalizing here with
  | nil =>
    intro h
    obtain ⟨_, -, hplace⟩ := follow_nil_eq_ok h
    cases hplace
  | cons name path ih =>
    intro h
    obtain ⟨-, -, ⟨_, -, hgoes⟩ | ⟨-, -, hplace⟩⟩ := follow_cons_eq_ok h
    · exact ih hgoes
    · cases hplace

theorem reach_removed {fs' : Files} {path : String} (hadrift : fs'.adrift = fs.adrift)
    (h : fs.reach path = .ok .removed) : fs'.reach path = .ok .removed := by
  rw [reach] at h ⊢
  rw [hadrift]
  split at h
  · exact absurd h (follow_ne_removed _)
  next habs =>
    rw [if_neg habs]
    split at h
    next hlost =>
      rw [if_pos hlost]
      rw [followAdrift.eq_def] at h ⊢
      split at h
      · rfl
      · exact absurd h (follow_ne_removed _)
      · cases h
    · exact absurd h (follow_ne_removed _)

theorem locate_directory_of_keeps {fs' : Files} {path : String} (hkeep : fs.Keeps fs')
    (h : fs.locate path = .ok (.occupied names .directory)) :
    fs'.locate path = .ok (.occupied names .directory) := by
  obtain ⟨hspelled, hreach, -⟩ := locate_eq_ok h
  have he := hkeep.directory names (locate_entry h rfl)
  exact locate_of_reach hspelled (reach_eq_of_keeps hkeep he hreach rfl) rfl

theorem isDirectory_of_keeps {fs' : Files} {path : String} (hkeep : fs.Keeps fs')
    (h : fs.isDirectory path = true) : fs'.isDirectory path = true := by
  rw [isDirectory, beq_iff_eq] at h ⊢
  obtain ⟨place, hplace, hentry⟩ := find?_eq_some h
  cases place with
  | occupied names e =>
    cases hentry
    rw [find?_of_locate (locate_directory_of_keeps hkeep hplace)]
    rfl
  | free names => cases hentry
  | removed =>
    obtain ⟨hspelled, hreach, -⟩ := locate_eq_ok hplace
    rw [find?_of_locate (locate_of_reach hspelled (reach_removed hkeep.adrift hreach) rfl)]
    rfl

/-- **A directory that is there is not made.** -/
theorem ensureDirectories_of_isDirectory (h : fs.isDirectory p.toString = true) :
    fs.ensureDirectories p = (.ok (), fs) := by
  have hfound := h
  rw [isDirectory, beq_iff_eq] at hfound
  obtain ⟨place, hplace, hentry⟩ := find?_eq_some hfound
  have hmake : fs.makeDirectory p.toString = .error (.alreadyThere p.toString) := by
    rw [makeDirectory, hplace]
    cases place with
    | free names => cases hentry
    | _ => rfl
  rw [ensureDirectories, hmake, h]
  rfl

theorem ensureDirectories_again {made after : Files} (h : fs.ensureDirectories p = (.ok (), made))
    (hkeep : made.Keeps after) : after.ensureDirectories p = (.ok (), after) :=
  ensureDirectories_of_isDirectory (isDirectory_of_keeps hkeep (isDirectory_of_ensureDirectories h))

end Files

end ScriptWorkbench
