/-
What a write does to the files.

Writes do not touch directories, so after any of them every path still leads to the same names. **A text that
has been written is what is read from its path,** if its lines end with line feeds (`readText_writeText`);
**and a write to another name does not change what is read** (`readText_writeText_of_apart`). That two paths
lead to different names can be told from their ends alone, unless there are slashes or only dots in these.
-/
import ScriptWorkbench.Files.Action
import ScriptWorkbench.Proofs.Splitting

namespace ScriptWorkbench

open List

namespace Path

variable {c : Char} {text : String} {w : List Char}

/-! ## Last names -/

/-- What a name may end with, so that it is no empty name and no dots: there is no slash in it, and
something besides dots. -/
structure NameEnd (w : List Char) : Prop where
  slash : '/' ∉ w
  other : ∃ c ∈ w, c ≠ '.'

theorem nameEnd_singleton (hslash : c ≠ '/') (hdot : c ≠ '.') : NameEnd [c] where
  slash := fun h => hslash (mem_singleton.1 h).symm
  other := ⟨c, mem_singleton_self c, hdot⟩

theorem NameEnd.not_suffix_dots (hw : NameEnd w) {dots : List Char} (hdots : ∀ c ∈ dots, c = '.') :
    ¬w <:+ dots := by
  obtain ⟨c, hc, hne⟩ := hw.other
  exact fun h => hne (hdots c (h.subset hc))

theorem splitNames_suffix (hw : NameEnd w) (h : w <:+ text.toList) :
    ∃ before last, splitNames text = before ++ [last] ∧ w <:+ last.toList := by
  obtain ⟨cs, hcs⟩ := h
  obtain ⟨before, last, -, happend⟩ := Text.splitOnChar_append '/' cs
  have hsplit := happend (Text.splitOnChar_of_not_mem hw.slash)
  have hlast : w <:+ last ++ w := suffix_append last w
  have hkept : (String.ofList (last ++ w) != "" && String.ofList (last ++ w) != ".") = true := by
    rw [Bool.and_eq_true, bne_iff_ne, bne_iff_ne]
    constructor <;> intro heq <;> rw [← String.toList_ofList (l := last ++ w), heq] at hlast
    · exact hw.not_suffix_dots (by simp) hlast
    · exact hw.not_suffix_dots (by simp) hlast
  rw [splitNames, Text.splitChar, ← hcs, hsplit, map_append, filter_append,
    map_singleton, filter_cons, if_pos hkept]
  exact ⟨_, String.ofList (last ++ w), rfl, by rwa [String.toList_ofList]⟩

theorem suffix_intercalate (sep last : String) (before : List String) :
    last.toList <:+ (sep.intercalate (before ++ [last])).toList := by
  induction before with
  | nil => simp
  | cons name before ih =>
    rw [cons_append, String.intercalate_cons_of_ne_nil (by simp), String.toList_append]
    exact ih.trans (suffix_append _ _)

theorem mem_intercalate_iff {sep : String} (hsep : c ∉ sep.toList) {texts : List String} :
    c ∈ (sep.intercalate texts).toList ↔ ∃ t ∈ texts, c ∈ t.toList := by
  induction texts with
  | nil => simp
  | cons t texts ih =>
    cases texts with
    | nil => simp
    | cons u texts =>
      rw [String.intercalate_cons_cons, String.toList_append, mem_append, ih]
      simp [hsep]

theorem toString_child_suffix (hw : NameEnd w) (h : w <:+ text.toList) (p : Path) :
    w <:+ (p.child text).toString.toList := by
  obtain ⟨before, last, hnames, hlast⟩ := splitNames_suffix hw h
  have hchild : ∃ root before', p.child text = ⟨root, before' ++ [last]⟩ := by
    rw [child, join, ofString, hnames]
    split
    · exact ⟨p.root, p.names ++ before, by rw [append_assoc]⟩
    · exact ⟨_, before, rfl⟩
  obtain ⟨root, before', hchild⟩ := hchild
  have htext : (p.child text).toString = root ++ "/".intercalate (before' ++ [last]) := by
    rw [hchild]
    exact if_neg (by simp)
  rw [htext, String.toList_append]
  exact hlast.trans ((suffix_intercalate "/" last before').trans (suffix_append _ _))

theorem toString_child_getLast (hslash : c ≠ '/') (hdot : c ≠ '.')
    (h : text.toList.getLast? = some c) (p : Path) :
    (p.child text).toString.toList.getLast? = some c := by
  obtain ⟨cs, hcs⟩ := getLast?_eq_some_iff.1 h
  obtain ⟨ds, hds⟩ := toString_child_suffix (nameEnd_singleton hslash hdot) ⟨cs, hcs.symm⟩ p
  exact getLast?_eq_some_iff.2 ⟨ds, hds.symm⟩

def Apart (path other : String) : Prop :=
  ∃ v w, NameEnd v ∧ NameEnd w ∧ v <:+ path.toList ∧ w <:+ other.toList ∧ ¬v <:+ w ∧ ¬w <:+ v

theorem Apart.symm {path other : String} (h : Apart path other) : Apart other path := by
  obtain ⟨v, w, hv, hw, hpath, hother, hvw, hwv⟩ := h
  exact ⟨w, v, hw, hv, hother, hpath, hwv, hvw⟩

theorem apart_child {v : List Char} {name other : String} (hv : NameEnd v) (hw : NameEnd w)
    (hname : v <:+ name.toList) (hother : w <:+ other.toList) (h : ¬v <:+ w) (h' : ¬w <:+ v) (p q : Path) :
    Apart (p.child name).toString (q.child other).toString :=
  ⟨v, w, hv, hw, toString_child_suffix hv hname p, toString_child_suffix hw hother q, h, h'⟩

end Path

namespace Files

variable {e : Entry} {name other path s text : String} {fs fs' : Files} {c : Content}
  {here names : List String} {place : Place}

/-! ## Entries -/

def Place.names? : Place → Option (List String)
  | .occupied names _ => some names
  | .free names => some names
  | .removed => none

theorem lookup_map_self {entries : List (List String × Entry)}
    (h : (entries.lookup names).isSome = true) :
    (entries.map fun x => if x.1 == names then (names, e) else x).lookup names = some e := by
  induction entries with
  | nil => cases h
  | cons x entries ih =>
    rw [map_cons]
    cases hx : x.1 == names with
    | true => rw [if_pos rfl, lookup_cons_self]
    | false =>
      have hne : (names == x.1) = false := by rw [BEq.comm, hx]
      rw [if_neg (by decide), lookup_cons, hne]
      rw [lookup_cons, hne] at h
      exact ih h

theorem lookup_map_of_ne {other : List String} (hne : names ≠ other)
    (entries : List (List String × Entry)) :
    (entries.map fun x => if x.1 == other then (other, e) else x).lookup names = entries.lookup names := by
  induction entries with
  | nil => rfl
  | cons x entries ih =>
    rw [map_cons, lookup_cons, lookup_cons, ih]
    cases hx : x.1 == other with
    | true =>
      have hother : (names == other) = false := beq_false_of_ne hne
      rw [if_pos rfl, beq_iff_eq.1 hx, hother]
    | false => rw [if_neg (by decide)]

theorem entry_put_self (h : names ≠ []) (fs : Files) (e : Entry) :
    Files.entry? (fs.put names e) names = some e := by
  have hnames : ¬names.isEmpty = true := by rwa [List.isEmpty_iff]
  rw [ entry?, if_neg hnames, put]
  split
  next hthere => exact lookup_map_self hthere
  next hfree =>
    rw [Option.not_isSome_iff_eq_none] at hfree
    rw [lookup_append, hfree, Option.none_or, lookup_cons_self]

theorem entry_put_of_ne {other : List String} (h : names ≠ other) (fs : Files) (e : Entry) :
    Files.entry? (fs.put other e) names = fs.entry? names := by
  rw [ entry?, entry?, put]
  split
  · rfl
  · split
    · exact lookup_map_of_ne h fs.entries
    · have hne : (names == other) = false := beq_false_of_ne h
      rw [lookup_append, lookup_cons, hne, lookup_nil, Option.or_none]

theorem put_cwd (fs : Files) (names : List String) (e : Entry) : (fs.put names e).cwd = fs.cwd := by
  rw [put]
  split <;> rfl

theorem put_home (fs : Files) (names : List String) (e : Entry) :
    (fs.put names e).home = fs.home := by
  rw [put]
  split <;> rfl

theorem put_adrift (fs : Files) (names : List String) (e : Entry) :
    (fs.put names e).adrift = fs.adrift := by
  rw [put]
  split <;> rfl

/-! ## Where a path leads -/

/-- The directories of one file system are directories of the other, and both are seen from the same
one. -/
structure Keeps (fs fs' : Files) : Prop where
  directory : ∀ names, fs.entry? names = some .directory → fs'.entry? names = some .directory
  cwd : fs'.cwd = fs.cwd
  adrift : fs'.adrift = fs.adrift

theorem Keeps.refl (fs : Files) : fs.Keeps fs := ⟨fun _ h => h, rfl, rfl⟩

theorem Keeps.trans {fs'' : Files} (h : fs.Keeps fs') (h' : fs'.Keeps fs'') : fs.Keeps fs'' where
  directory names hnames := h'.directory names (h.directory names hnames)
  cwd := h'.cwd.trans h.cwd
  adrift := h'.adrift.trans h.adrift

theorem keeps_put (h : fs.entry? names ≠ some .directory) (e : Entry) :
    fs.Keeps (fs.put names e) where
  directory := by
    intro other hother
    rw [entry_put_of_ne (by rintro rfl; exact h hother), hother]
  cwd := put_cwd fs names e
  adrift := put_adrift fs names e

theorem keeps_of_put_file (h : names ≠ []) (fs : Files) (c : Content) :
    (fs.put names (.file c)).Keeps fs := by
  refine ⟨?_, (put_cwd _ _ _).symm, (put_adrift _ _ _).symm⟩
  intro other hother
  rwa [entry_put_of_ne] at hother
  rintro rfl
  rw [entry_put_self h] at hother
  cases hother

theorem follow_nil_eq_ok (h : fs.follow here [] = .ok place) :
    ∃ e, fs.entry? here = some e ∧ place = .occupied here e := by
  rw [follow] at h
  cases hhere : fs.entry? here with
  | none => rw [hhere] at h; cases h
  | some e =>
    rw [hhere] at h
    cases h
    exact ⟨e, rfl, rfl⟩

/-- **One name of a path:** it is looked up in a directory, and the path goes on from what is there. Only
behind the last name there may be nothing. -/
theorem follow_cons_eq_ok {rest : List String} (h : fs.follow here (name :: rest) = .ok place) :
    fs.entry? here = some .directory ∧ ¬nameLimit < name.utf8ByteSize ∧
      ((∃ e, fs.entry? (Path.stepInto here name) = some e ∧
          fs.follow (Path.stepInto here name) rest = .ok place) ∨
        (rest = [] ∧ fs.entry? (Path.stepInto here name) = none ∧
          place = .free (Path.stepInto here name))) := by
  rw [follow] at h
  split at h
  · cases h
  · cases h
  next hhere =>
    split at h
    · cases h
    next hshort =>
      refine ⟨hhere, hshort, ?_⟩
      dsimp only at h
      split at h
      next e hnext => exact .inl ⟨e, hnext, h⟩
      next hnext =>
        split at h
        next hlast =>
          cases h
          exact .inr ⟨isEmpty_iff.1 hlast, hnext, rfl⟩
        · cases h

theorem follow_of_entry {rest : List String} (hhere : fs.entry? here = some .directory)
    (hshort : ¬nameLimit < name.utf8ByteSize) (hnext : fs.entry? (Path.stepInto here name) = some e) :
    fs.follow here (name :: rest) = fs.follow (Path.stepInto here name) rest := by
  rw [follow, hhere]
  dsimp only
  rw [if_neg hshort, hnext]

theorem follow_eq_of_keeps (hkeep : fs.Keeps fs') (he : fs'.entry? names = some e)
    {path : List String} (h : fs.follow here path = .ok place) (hplace : place.names? = some names) :
    fs'.follow here path = .ok (.occupied names e) := by
  induction path generalizing here with
  | nil =>
    obtain ⟨d, -, rfl⟩ := follow_nil_eq_ok h
    cases hplace
    rw [follow, he]
  | cons name rest ih =>
    obtain ⟨hhere, hshort, ⟨d, -, hgoes⟩ | ⟨rfl, -, rfl⟩⟩ := follow_cons_eq_ok h
    · have hrest := ih hgoes
      -- the next name is the last one, or a directory that the path leads through
      have hsome : ∃ d', fs'.entry? (Path.stepInto here name) = some d' := by
        cases hd : fs'.entry? (Path.stepInto here name) with
        | some d' => exact ⟨d', rfl⟩
        | none => cases rest <;> rw [follow, hd] at hrest <;> cases hrest
      obtain ⟨d', hd'⟩ := hsome
      rw [follow_of_entry (hkeep.directory here hhere) hshort hd', hrest]
    · cases hplace
      rw [follow_of_entry (hkeep.directory here hhere) hshort he, follow, he]

def reach (fs : Files) (path : String) : Except Astray Place :=
  if Text.startsWith path "/" then fs.follow [] (Path.splitNames path)
  else if fs.adrift then fs.followAdrift (Path.splitNames path)
  else fs.follow fs.cwd (Path.splitNames path)

def Spelled (path : String) : Prop :=
  path.toList.contains (Char.ofNat 0) = false ∧ path ≠ "" ∧ path.utf8ByteSize < pathLimit

theorem locate_eq_ok (h : fs.locate path = .ok place) :
    Spelled path ∧ fs.reach path = .ok place ∧ (place.isFile && namesDirectory path) = false := by
  rw [locate] at h
  split at h
  · cases h
  next hzero =>
    split at h
    · cases h
    next hempty =>
      split at h
      · cases h
      next hlong =>
        refine ⟨⟨Bool.eq_false_iff.2 hzero, fun heq => hempty (beq_iff_eq.2 heq), Nat.lt_of_not_le hlong⟩, ?_⟩
        dsimp only at h
        split at h
        · cases h
        · cases h
        · cases h
        next hreach =>
          split at h
          · cases h
          next hfits =>
            cases h
            exact ⟨hreach, Bool.eq_false_iff.2 hfits⟩

theorem locate_of_reach (h : Spelled path) (hreach : fs.reach path = .ok place)
    (hfits : (place.isFile && namesDirectory path) = false) :
    fs.locate path = .ok place := by
  obtain ⟨hzero, hempty, hlong⟩ := h
  rw [locate, if_neg (by rw [hzero]; decide), if_neg (by rw [beq_iff_eq]; exact hempty),
    if_neg (Nat.not_le_of_lt hlong)]
  rw [reach] at hreach
  dsimp only
  rw [hreach]
  dsimp only
  rw [hfits]
  rfl

theorem reach_eq_of_keeps (hkeep : fs.Keeps fs') (he : fs'.entry? names = some e)
    (h : fs.reach path = .ok place) (hplace : place.names? = some names) :
    fs'.reach path = .ok (.occupied names e) := by
  rw [reach] at h ⊢
  rw [hkeep.adrift, hkeep.cwd]
  split at h
  next habs => rw [if_pos habs, follow_eq_of_keeps hkeep he h hplace]
  next habs =>
    rw [if_neg habs]
    split at h
    next hadrift =>
      rw [if_pos hadrift]
      rw [followAdrift.eq_def] at h ⊢
      split at h
      · cases h
        cases hplace
      next rest hnames => rw [hkeep.cwd, follow_eq_of_keeps hkeep he h hplace]
      · cases h
    next hadrift => rw [if_neg hadrift, follow_eq_of_keeps hkeep he h hplace]

/-- **A path leads where it led,** if there is a file now. -/
theorem locate_eq_of_keeps (hkeep : fs.Keeps fs') (he : fs'.entry? names = some (.file c))
    (h : fs.locate path = .ok place) (hplace : place.names? = some names)
    (hdir : namesDirectory path = false) :
    fs'.locate path = .ok (.occupied names (.file c)) := by
  obtain ⟨hspelled, hreach, -⟩ := locate_eq_ok h
  exact locate_of_reach hspelled (reach_eq_of_keeps hkeep he hreach hplace) (by rw [hdir, Bool.and_false])

/-! ## The names that a path leads to -/

theorem follow_names {before : List String} (hname : name ≠ "..")
    (h : fs.follow here (before ++ [name]) = .ok place) :
    ∃ names, place.names? = some names ∧ names.getLast? = some name := by
  induction before generalizing here with
  | nil =>
    have hstep : Path.stepInto here name = here ++ [name] := by
      rw [Path.stepInto, if_neg (by rwa [beq_iff_eq])]
    obtain ⟨-, -, ⟨e, -, hend⟩ | ⟨-, -, rfl⟩⟩ := follow_cons_eq_ok h
    · obtain ⟨d, -, rfl⟩ := follow_nil_eq_ok hend
      exact ⟨_, rfl, by rw [hstep, getLast?_concat]⟩
    · exact ⟨_, rfl, by rw [hstep, getLast?_concat]⟩
  | cons first before ih =>
    obtain ⟨-, -, ⟨e, -, hgoes⟩ | ⟨hnil, -⟩⟩ := follow_cons_eq_ok h
    · exact ih hgoes
    · exact absurd hnil (by simp)

theorem locate_last {before : List String} (hsplit : Path.splitNames path = before ++ [name])
    (hname : name ≠ "..") (h : fs.locate path = .ok place) :
    ∃ names, place.names? = some names ∧ names.getLast? = some name := by
  have hreach := (locate_eq_ok h).2.1
  rw [reach, hsplit] at hreach
  split at hreach
  · exact follow_names hname hreach
  · split at hreach
    · rw [followAdrift.eq_def] at hreach
      split at hreach
      next hnil => exact absurd hnil (by simp)
      next rest hrest =>
        -- the path goes up first, so that its last name is the last of the others
        cases before with
        | nil => cases hrest; exact absurd rfl hname
        | cons first before =>
          cases hrest
          exact follow_names hname hreach
      · cases hreach
    · exact follow_names hname hreach

theorem locate_names {w : List Char} (hw : Path.NameEnd w) (hpath : w <:+ path.toList)
    (h : fs.locate path = .ok place) :
    ∃ names name, place.names? = some names ∧ names.getLast? = some name ∧ w <:+ name.toList := by
  obtain ⟨before, name, hsplit, hlast⟩ := Path.splitNames_suffix hw hpath
  have hname : name ≠ ".." := by
    rintro rfl
    exact hw.not_suffix_dots (by simp) hlast
  obtain ⟨names, hnames, hend⟩ := locate_last hsplit hname h
  exact ⟨names, name, hnames, hend, hlast⟩

theorem names_ne_of_apart {place' : Place} {names' : List String} (h : Path.Apart path other)
    (hpath : fs.locate path = .ok place) (hother : fs'.locate other = .ok place')
    (hnames : place.names? = some names) (hnames' : place'.names? = some names') :
    names ≠ names' := by
  obtain ⟨v, w, hv, hw, hend, hend', hvw, hwv⟩ := h
  obtain ⟨ns, name, hns, hlast, hname⟩ := locate_names hv hend hpath
  obtain ⟨ns', name', hns', hlast', hname'⟩ := locate_names hw hend' hother
  rintro rfl
  rw [hnames] at hns
  rw [hnames'] at hns'
  cases hns
  cases hns'
  rw [hlast] at hlast'
  cases hlast'
  exact (suffix_or_suffix_of_suffix hname hname').elim hvw hwv

/-! ## Writing and reading -/

theorem follow_entry {path : List String} (h : fs.follow here path = .ok place)
    (hplace : place.names? = some names) :
    fs.entry? names = place.entry? := by
  induction path generalizing here with
  | nil =>
    obtain ⟨e, hhere, rfl⟩ := follow_nil_eq_ok h
    cases hplace
    exact hhere
  | cons name rest ih =>
    obtain ⟨-, -, ⟨e, -, hgoes⟩ | ⟨-, hfree, rfl⟩⟩ := follow_cons_eq_ok h
    · exact ih hgoes
    · cases hplace
      exact hfree

theorem locate_entry (h : fs.locate path = .ok place) (hplace : place.names? = some names) :
    fs.entry? names = place.entry? := by
  have hreach := (locate_eq_ok h).2.1
  rw [reach] at hreach
  split at hreach
  · exact follow_entry hreach hplace
  · split at hreach
    · rw [followAdrift.eq_def] at hreach
      split at hreach
      · cases hreach
        cases hplace
      · exact follow_entry hreach hplace
      · cases hreach
    · exact follow_entry hreach hplace

theorem writeText_of_file (h : fs.locate path = .ok (.occupied names (.file c))) (text : String) :
    fs.writeText path text = .ok (fs.put names (.file (.text text))) := by
  rw [writeText, h]
  rfl

theorem writeText_of_free (h : fs.locate path = .ok (.free names))
    (hdir : namesDirectory path = false) (text : String) :
    fs.writeText path text = .ok (fs.put names (.file (.text text))) := by
  rw [writeText, h]
  rw [hdir]
  rfl

theorem writeText_eq_ok (h : fs.writeText path text = .ok fs') :
    ∃ place names, fs.locate path = .ok place ∧ place.names? = some names ∧
      place.entry? ≠ some .directory ∧ namesDirectory path = false ∧
      ∀ text', fs.writeText path text' = .ok (fs.put names (.file (.text text'))) := by
  cases hplace : fs.locate path with
  | error e => rw [writeText, hplace] at h; cases h
  | ok place =>
    cases place with
    | occupied names e =>
      cases e with
      | directory => rw [writeText, hplace] at h; cases h
      | file c =>
        have hdir := (locate_eq_ok hplace).2.2
        exact ⟨_, names, rfl, rfl, by rintro ⟨⟩, hdir, writeText_of_file hplace⟩
    | free names =>
      cases hdir : namesDirectory path with
      | false => exact ⟨_, names, rfl, rfl, by rintro ⟨⟩, rfl, writeText_of_free hplace hdir⟩
      | true =>
        rw [writeText, hplace] at h
        rw [hdir] at h
        cases h
    | removed => rw [writeText, hplace] at h; cases h

def Writable (fs : Files) (path : String) : Prop := ∃ text fs', fs.writeText path text = .ok fs'

theorem readText_of_file (h : fs.locate path = .ok (.occupied names (.file c))) :
    fs.readText path = c.read := by
  rw [readText, content, h]
  rfl

theorem readText_eq_ok (h : fs.readText path = .ok text) :
    ∃ names c, fs.locate path = .ok (.occupied names (.file c)) ∧ c.read = .ok text := by
  cases hplace : fs.locate path with
  | error e => rw [readText, content, hplace] at h; cases h
  | ok place =>
    cases place with
    | occupied names e =>
      cases e with
      | directory => rw [readText, content, hplace] at h; cases h
      | file c => exact ⟨names, c, rfl, by rw [← h, readText_of_file hplace]⟩
    | free names | removed => rw [readText, content, hplace] at h; cases h

theorem not_mem_normalizeLineEnds (cs : List Char) : '\r' ∉ Text.normalizeLineEnds cs := by
  fun_induction Text.normalizeLineEnds cs with
  | case1 => exact not_mem_nil
  | case2 cs ih => exact fun h => ih (mem_of_ne_of_mem (by decide) h)
  | case3 c cs _ ih =>
    refine fun h => ih (mem_of_ne_of_mem ?_ h)
    split
    · decide
    next hc => exact Ne.symm hc

theorem not_mem_of_readText (h : fs.readText path = .ok text) :
    '\r' ∉ text.toList := by
  obtain ⟨names, c, -, hread⟩ := readText_eq_ok h
  cases c with
  | text t =>
    cases hread
    rw [String.toList_ofList]
    exact not_mem_normalizeLineEnds _
  | bytes b =>
    rw [Content.read] at hread
    split at hread
    · cases hread
      rw [String.toList_ofList]
      exact not_mem_normalizeLineEnds _
    · cases hread

/-- **What has been written is read again.** -/
theorem readText_writeText (h : fs.Writable path) (hreturn : '\r' ∉ text.toList) :
    ∃ fs', fs.writeText path text = .ok fs' ∧ fs'.readText path = .ok text := by
  obtain ⟨text', fs', hwrite⟩ := h
  obtain ⟨place, names, hplace, hnames, hfile, hdir, hwrites⟩ := writeText_eq_ok hwrite
  refine ⟨_, hwrites text, ?_⟩
  have hentry := locate_entry hplace hnames
  have htop : names ≠ [] := by
    rintro rfl
    exact hfile hentry.symm
  have hkeep : fs.Keeps (fs.put names (.file (.text text))) := keeps_put (by rw [hentry]; exact hfile) _
  have hthere := locate_eq_of_keeps hkeep (entry_put_self htop fs _) hplace hnames hdir
  rw [readText_of_file hthere, Content.read, Text.normalizeLineEnds_of_not_mem hreturn, String.ofList_toList]

theorem writeText_eq_put (h : fs.writeText path text = .ok fs') :
    ∃ place names, fs.locate path = .ok place ∧ place.names? = some names ∧
      fs.entry? names ≠ some .directory ∧ fs' = fs.put names (.file (.text text)) := by
  obtain ⟨place, names, hplace, hnames, hfile, -, hwrites⟩ := writeText_eq_ok h
  rw [hwrites] at h
  exact ⟨place, names, hplace, hnames, by rw [locate_entry hplace hnames]; exact hfile,
    (Except.ok.inj h).symm⟩

/-- **A write to another name changes nothing in a file.** -/
theorem readText_writeText_of_apart (hread : fs.readText path = .ok s)
    (hwrite : fs.writeText other text = .ok fs') (hapart : Path.Apart path other) :
    fs'.readText path = .ok s := by
  obtain ⟨names, file, hplace, hfile⟩ := readText_eq_ok hread
  obtain ⟨place', names', hplace', hnames', hentry', rfl⟩ := writeText_eq_put hwrite
  have hne : names ≠ names' := names_ne_of_apart hapart hplace hplace' rfl hnames'
  have hentry : Files.entry? (fs.put names' (.file (.text text))) names = some (.file file) := by
    rw [entry_put_of_ne hne, locate_entry hplace rfl]
    rfl
  have hdir : namesDirectory path = false := (locate_eq_ok hplace).2.2
  rw [readText_of_file (locate_eq_of_keeps (keeps_put hentry' _) hentry hplace rfl hdir), hfile]

/-! ## What is there and what is not -/

theorem find?_of_locate (h : fs.locate path = .ok place) :
    fs.find? path = place.entry? := by
  rw [find?, lookUp, h]
  rfl

theorem find?_eq_some (h : fs.find? path = some e) :
    ∃ place, fs.locate path = .ok place ∧ place.entry? = some e := by
  cases hplace : fs.locate path with
  | ok place => exact ⟨place, rfl, by rw [← find?_of_locate hplace, h]⟩
  | error err =>
    rw [find?, lookUp, hplace] at h
    cases err <;> cases h

theorem find?_of_readText (h : fs.readText path = .ok s) :
    (fs.find? path).isSome = true := by
  obtain ⟨names, c, hplace, -⟩ := readText_eq_ok h
  rw [find?_of_locate hplace]
  rfl

theorem find?_of_keeps {fs₀ : Files} {place' : Place} {names' : List String} (hkeep : fs.Keeps fs')
    (hapart : Path.Apart path other) (hother : fs₀.locate other = .ok place')
    (hnames' : place'.names? = some names') (hsame : ∀ ns, ns ≠ names' → fs'.entry? ns = fs.entry? ns)
    (h : fs.find? path = some e) : fs'.find? path = some e := by
  obtain ⟨place, hplace, hthere⟩ := find?_eq_some h
  obtain ⟨v, w, hv, -, hend, -⟩ := id hapart
  obtain ⟨names, -, hnames, -⟩ := locate_names hv hend hplace
  have hne : names ≠ names' := names_ne_of_apart hapart hplace hother hnames hnames'
  cases place with
  | occupied ns d =>
    cases hnames
    cases hthere
    have hentry : fs'.entry? names = some e := by
      rw [hsame names hne, locate_entry hplace rfl]
      rfl
    obtain ⟨hspelled, hreach, hfits⟩ := locate_eq_ok hplace
    rw [find?_of_locate (locate_of_reach hspelled (reach_eq_of_keeps hkeep hentry hreach rfl) hfits)]
    rfl
  | free ns => cases hthere
  | removed => cases hnames

/-- **A write to another name does nothing to what is there.** -/
theorem find?_writeText_of_apart (hwrite : fs.writeText other text = .ok fs')
    (hapart : Path.Apart path other) : fs'.find? path = fs.find? path := by
  obtain ⟨place', names', hplace', hnames', hentry', rfl⟩ := writeText_eq_put hwrite
  have hsame (ns : List String) (hne : ns ≠ names') :
      Files.entry? (fs.put names' (.file (.text text))) ns = fs.entry? ns := entry_put_of_ne hne _ _
  have htop : names' ≠ [] := by
    rintro rfl
    exact hentry' rfl
  -- a path that leads somewhere now has led there before, as a file is no way to anything
  have hback := keeps_of_put_file htop fs (.text text)
  refine Option.ext fun e => ⟨?_, ?_⟩
  · exact find?_of_keeps hback hapart hplace' hnames' fun ns hne => (hsame ns hne).symm
  · exact find?_of_keeps (keeps_put hentry' _) hapart hplace' hnames' hsame

/-! ## Making directories -/

/-- Everything that was there is there, and the file system is seen from where it was. -/
structure Grows (fs fs' : Files) : Prop where
  entry : ∀ names e, fs.entry? names = some e → fs'.entry? names = some e
  cwd : fs'.cwd = fs.cwd
  home : fs'.home = fs.home
  adrift : fs'.adrift = fs.adrift

theorem Grows.refl (fs : Files) : fs.Grows fs := ⟨fun _ _ h => h, rfl, rfl, rfl⟩

theorem Grows.trans {fs'' : Files} (h : fs.Grows fs') (h' : fs'.Grows fs'') : fs.Grows fs'' where
  entry names e he := h'.entry names e (h.entry names e he)
  cwd := h'.cwd.trans h.cwd
  home := h'.home.trans h.home
  adrift := h'.adrift.trans h.adrift

theorem Grows.readText (h : fs.Grows fs') (hread : fs.readText path = .ok s) :
    fs'.readText path = .ok s := by
  obtain ⟨names, c, hplace, hc⟩ := readText_eq_ok hread
  have hkeep : fs.Keeps fs' := ⟨fun names => h.entry names .directory, h.cwd, h.adrift⟩
  have hentry := h.entry names (.file c) (locate_entry hplace rfl)
  have hdir : namesDirectory path = false := (locate_eq_ok hplace).2.2
  rw [readText_of_file (locate_eq_of_keeps hkeep hentry hplace rfl hdir), hc]

theorem makeDirectory_grows (h : fs.makeDirectory path = .ok fs') :
    fs.Grows fs' := by
  cases hplace : fs.locate path with
  | error e => rw [makeDirectory, hplace] at h; cases h
  | ok place =>
    cases place with
    | occupied names e | removed => rw [makeDirectory, hplace] at h; cases h
    | free names =>
      rw [makeDirectory, hplace] at h
      cases h
      refine ⟨?_, put_cwd _ _ _, put_home _ _ _, put_adrift _ _ _⟩
      intro other e hother
      have hne : other ≠ names := by
        rintro rfl
        rw [locate_entry hplace rfl] at hother
        cases hother
      rw [entry_put_of_ne hne, hother]

theorem ensureDirectory_grows (h : fs.ensureDirectory path = .ok fs') :
    fs.Grows fs' := by
  rw [ensureDirectory] at h
  split at h
  next hmake =>
    cases h
    exact makeDirectory_grows hmake
  next =>
    split at h
    · cases h
      exact .refl fs
    · cases h

/-- **Making directories takes nothing away,** whether it succeeds or not. -/
theorem ensureDirectories_grows (fs : Files) (p : Path) : fs.Grows (fs.ensureDirectories p).2 := by
  fun_induction ensureDirectories fs p with
  | case1 p fs' hmake => exact makeDirectory_grows hmake
  | case2 p path hmake htop | case6 p e hmake hother hthere | case7 p e hmake hother hthere => exact .refl fs
  | case3 p path hmake hnames e fs' habove ih | case5 p path hmake hnames fs' habove e hlast ih =>
    rwa [habove] at ih
  | case4 p path hmake hnames fs' habove fs'' hlast ih =>
    rw [habove] at ih
    exact ih.trans (ensureDirectory_grows hlast)

end Files

end ScriptWorkbench
