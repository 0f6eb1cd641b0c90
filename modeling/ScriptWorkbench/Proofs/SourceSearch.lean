/-
What a search for source files finds.

The search goes through the directory of a project and all directories below it. **In a tree it finds the
entries that are named as source files, each of them once and in the order of the paths**
(`mem_sourcesOf_iff`, `sourcesOf_strict`), however the entries are enumerated. It fails only where a path is
too long for the directory to be opened (`searchable_iff`).
-/
import ScriptWorkbench.Proofs.FileTrees
import ScriptWorkbench.Proofs.PackageIndex

namespace ScriptWorkbench

open List

namespace Glob

/-! ## Names that end as a pattern does -/

theorem fits_map_char (cs ds : List Char) : fits (cs.map .char) ds = true ↔ ds = cs := by
  induction cs generalizing ds with
  | nil => rw [List.map_nil, fits, List.isEmpty_iff]
  | cons c cs ih =>
    cases ds with
    | nil => simp [fits]
    | cons d ds => simp [fits, Piece.fits, ih]

theorem mem_suffixes {α : Type} {as bs : List α} : bs ∈ suffixes as ↔ bs <:+ as := by
  induction as with
  | nil => rw [suffixes, mem_singleton, suffix_nil]
  | cons a as ih => rw [suffixes, mem_cons, ih, suffix_cons_iff]

theorem matchesName_star_iff {s : String} (hs : s ∈ Package.sourceSuffixes) (name : String) :
    matchesName ("*" ++ s) name = true ↔ s.toList <:+ name.toList := by
  have hpieces : ∀ s ∈ Package.sourceSuffixes,
      pieces ("*" ++ s).length ("*" ++ s).toList = .any :: s.toList.map .char := by decide +kernel
  rw [matchesName, hpieces s hs, fits, any_eq_true]
  simp only [fits_map_char, mem_suffixes, exists_eq_right]

/-! ## One search after another -/

namespace Found

variable {α : Type} {f : α → Found} {l : List α}

theorem each_failure_iff : (each f l).failure = none ↔ ∀ a ∈ l, (f a).failure = none := by
  induction l with
  | nil => simp [each, nothing]
  | cons a l ih =>
    rw [each, append, forall_mem_cons, ← ih]
    cases ha : (f a).failure <;> simp [ha]

theorem each_paths (h : (each f l).failure = none) :
    (each f l).paths = l.flatMap fun a => (f a).paths := by
  induction l with
  | nil => rfl
  | cons a l ih =>
    obtain ⟨ha, hl⟩ := forall_mem_cons.1 (each_failure_iff.1 h)
    rw [each, append, ha, flatMap_cons, ← ih (each_failure_iff.2 hl)]
    rfl

theorem each_one (g : α → Path) : each (fun a => ⟨[g a], none⟩) l = ⟨l.map g, none⟩ := by
  induction l with
  | nil => rfl
  | cons a l ih =>
    rw [each, ih]
    rfl

end Found

end Glob

namespace Files

variable {e : Entry} {fs : Files} {there names rel : List String} {p q : Path} {s : String}

/-! ## The directories of a search -/

theorem mem_entriesIn_iff {name : String} :
    (name, e) ∈ fs.entriesIn names ↔ (names ++ [name], e) ∈ fs.entries := by
  rw [ entriesIn, mem_filterMap]
  constructor
  · rintro ⟨x, hx, hsome⟩
    split at hsome
    next hnames =>
      obtain ⟨last, hlast, heq⟩ := Option.map_eq_some_iff.1 hsome
      cases heq
      obtain ⟨ns, hns⟩ := getLast?_eq_some_iff.1 hlast
      rw [hns, dropLast_concat, beq_iff_eq] at hnames
      rwa [← hnames, ← hns]
    · cases hsome
  · intro h
    exact ⟨_, h, by simp⟩

variable (htree : fs.IsTree) (hp : p.Tidy) (h : fs.locate p.toString = .ok (.occupied there .directory))

include htree h in
theorem mem_directoriesFrom_iff :
    q ∈ fs.directoriesFrom p ↔ ∃ rel, q = p.extend rel ∧ fs.entry? (there ++ rel) = some .directory := by
  rw [directoriesFrom, h]
  rw [mem_cons, mem_filterMap]
  constructor
  · rintro (rfl | ⟨⟨ns, d⟩, hx, hsome⟩)
    · exact ⟨[], by simp [Path.extend], by rw [append_nil, locate_entry h rfl]; rfl⟩
    · split at hsome
      next hcond =>
        cases hsome
        simp only [Bool.and_eq_true, beq_iff_eq, isPrefixOf_iff_prefix] at hcond
        obtain ⟨⟨rfl, rel, rfl⟩, -⟩ := hcond
        rw [drop_left]
        exact ⟨rel, rfl, (htree.entry_eq_some_iff (htree.named _ hx).1).2 hx⟩
      · cases hsome
  · rintro ⟨rel, rfl, hrel⟩
    by_cases hnil : rel = []
    · left
      rw [hnil, Path.extend, append_nil]
    · right
      refine ⟨_, (htree.entry_eq_some_iff (by simp [hnil])).1 hrel, ?_⟩
      have hpos := length_pos_iff.2 hnil
      simp [hpos, Path.extend]

theorem select_fitting_eq (pattern : String) (q : Path) :
    fs.select [.fitting pattern] q = .ofLook (fun entries =>
      ⟨(entries.filter fun e => Glob.matchesName pattern e.1).map fun e => within q e.1, none⟩)
      (fs.list q.toString) := by
  rw [select]
  simp [select.goesOn, select, Glob.Found.each_one]

include htree hp h in
theorem list_below (hrel : fs.entry? (there ++ rel) = some .directory) :
    if (p.extend rel).toString.utf8ByteSize < pathLimit then
      fs.list (p.extend rel).toString = .ok (fs.entriesIn (there ++ rel))
    else ∃ e, fs.list (p.extend rel).toString = .error e := by
  obtain ⟨hreach, hspelled⟩ := htree.reach_below hp h hrel
  split
  next hshort =>
    rw [list, locate_of_reach (hspelled.2 hshort) hreach rfl]
    rfl
  next hlong =>
    cases hlocate : fs.locate (p.extend rel).toString with
    | error e => exact ⟨e, by rw [list, hlocate]; rfl⟩
    | ok place => exact absurd (hspelled.1 (locate_eq_ok hlocate).1) hlong

include htree hp h in
theorem select_failure_iff (hrel : fs.entry? (there ++ rel) = some .directory) (pattern : String) :
    (fs.select [.fitting pattern] (p.extend rel)).failure = none ↔
      (p.extend rel).toString.utf8ByteSize < pathLimit := by
  have hlist := list_below htree hp h hrel
  rw [select_fitting_eq]
  split at hlist
  next hshort => simp [hlist, Glob.Found.ofLook, hshort]
  next hlong =>
    obtain ⟨e, he⟩ := hlist
    simp [he, Glob.Found.ofLook, hlong]

include htree hp h in
theorem mem_select_iff (hs : s ∈ Package.sourceSuffixes)
    (hrel : fs.entry? (there ++ rel) = some .directory)
    (hshort : (p.extend rel).toString.utf8ByteSize < pathLimit) :
    q ∈ (fs.select [.fitting ("*" ++ s)] (p.extend rel)).paths ↔
      ∃ name, q = p.extend (rel ++ [name]) ∧ (fs.entry? (there ++ (rel ++ [name]))).isSome ∧
        s.toList <:+ name.toList := by
  have hlist := list_below htree hp h hrel
  rw [if_pos hshort] at hlist
  have hentry (name : String) : (fs.entry? (there ++ (rel ++ [name]))).isSome ↔
      ∃ e, (name, e) ∈ fs.entriesIn (there ++ rel) := by
    rw [Option.isSome_iff_exists]
    refine exists_congr fun e => ?_
    rw [htree.entry_eq_some_iff (by simp), mem_entriesIn_iff, append_assoc]
  rw [select_fitting_eq, hlist]
  simp only [Glob.Found.ofLook, mem_map, mem_filter, Glob.matchesName_star_iff hs, hentry]
  constructor
  · rintro ⟨⟨name, e⟩, ⟨he, hname⟩, rfl⟩
    exact ⟨name, by simp [within, Path.extend], ⟨e, he⟩, hname⟩
  · rintro ⟨name, rfl, ⟨e, he⟩, hname⟩
    exact ⟨(name, e), ⟨he, hname⟩, by simp [within, Path.extend]⟩

/-! ## All entries with an end -/

def Below (fs : Files) (p q : Path) : Prop :=
  ∃ there rel, fs.locate p.toString = .ok (.occupied there .directory) ∧ rel ≠ [] ∧
    q = p.extend rel ∧ (fs.entry? (there ++ rel)).isSome

/-- No path of a directory below the path is too long to be opened, nor is the path itself. -/
def Passable (fs : Files) (p : Path) : Prop :=
  (∀ text, fs.locate p.toString ≠ .error (.tooLong text)) ∧
    ∀ there rel, fs.locate p.toString = .ok (.occupied there .directory) →
      fs.entry? (there ++ rel) = some .directory → (p.extend rel).toString.utf8ByteSize < pathLimit

theorem glob_eq (hs : s ∈ Package.sourceSuffixes) (fs : Files) (p : Path) :
    fs.glob p ("*" ++ s) = .ofLook (fun e => if e == some .directory then
      fs.select [.deep, .fitting ("*" ++ s)] p else .nothing) (fs.lookUp p.toString) := by
  have hsteps : ∀ s ∈ Package.sourceSuffixes,
      (Glob.stepsOf ("*" ++ s)).toOption = some [.fitting ("*" ++ s)] := by decide +kernel
  rw [glob, eq_ok_of_toOption (hsteps s hs)]
  rfl

theorem nodup_eraseDups {α : Type} [BEq α] [LawfulBEq α] (l : List α) : l.eraseDups.Nodup := by
  generalize hlen : l.length = n
  induction n using Nat.strongRecOn generalizing l with
  | ind n ih =>
    cases l with
    | nil => exact nodup_nil
    | cons a l =>
      rw [eraseDups_cons, nodup_cons]
      refine ⟨by simp, ih _ ?_ _ rfl⟩
      exact hlen ▸ Nat.lt_succ_of_le (length_filter_le _ l)

theorem nodup_glob (hs : s ∈ Package.sourceSuffixes) (fs : Files) (p : Path) :
    (fs.glob p ("*" ++ s)).paths.Nodup := by
  rw [glob_eq hs]
  cases fs.lookUp p.toString with
  | error e => exact nodup_nil
  | ok e =>
    rw [Glob.Found.ofLook]
    split
    · exact nodup_eraseDups _
    · exact nodup_nil

theorem glob_of_no_directory (hs : s ∈ Package.sourceSuffixes)
    (h : ∀ there, fs.locate p.toString ≠ .ok (.occupied there .directory)) :
    (fs.glob p ("*" ++ s)).paths = [] ∧
      ((fs.glob p ("*" ++ s)).failure = none ↔ ∀ text, fs.locate p.toString ≠ .error (.tooLong text)) := by
  rw [glob_eq hs, lookUp]
  cases hplace : fs.locate p.toString with
  | error e => cases e <;> simp [Glob.Found.ofLook, Glob.Found.nothing]
  | ok place =>
    cases place with
    | occupied names e =>
      cases e with
      | directory => exact absurd hplace (h names)
      | file c => simp [Glob.Found.ofLook, Glob.Found.nothing, Place.entry?]
    | free names => simp [Glob.Found.ofLook, Glob.Found.nothing, Place.entry?]
    | removed =>
      -- the current directory has been removed: it is searched, and nothing is in it
      have hempty : fs.list p.toString = .ok [] := by rw [list, hplace]; rfl
      simp [Glob.Found.ofLook, select, directoriesFrom, hempty,
        Glob.Found.each, Glob.Found.append, Glob.Found.nothing]

theorem glob_of_directory (hs : s ∈ Package.sourceSuffixes)
    (h : fs.locate p.toString = .ok (.occupied there .directory)) :
    let found := Glob.Found.each (fs.select [.fitting ("*" ++ s)]) (fs.directoriesFrom p)
    fs.glob p ("*" ++ s) = ⟨found.paths.eraseDups, found.failure⟩ := by
  rw [glob_eq hs, lookUp, h]
  change fs.select _ p = _
  rw [select]

include htree hp in
theorem glob_failure_iff (hs : s ∈ Package.sourceSuffixes) :
    (fs.glob p ("*" ++ s)).failure = none ↔ fs.Passable p := by
  by_cases h : ∃ there, fs.locate p.toString = .ok (.occupied there .directory)
  · obtain ⟨there, h⟩ := h
    rw [glob_of_directory hs h, Glob.Found.each_failure_iff]
    constructor
    · intro hall
      refine ⟨fun text => by rw [h]; rintro ⟨⟩, fun there' rel hthere hrel => ?_⟩
      cases h.symm.trans hthere
      exact (select_failure_iff htree hp h hrel _).1
        (hall _ ((mem_directoriesFrom_iff htree h).2 ⟨rel, rfl, hrel⟩))
    · intro hpass d hd
      obtain ⟨rel, rfl, hrel⟩ := (mem_directoriesFrom_iff htree h).1 hd
      exact (select_failure_iff htree hp h hrel _).2 (hpass.2 there rel h hrel)
  · have hnone := fun there hthere => h ⟨there, hthere⟩
    rw [(glob_of_no_directory hs hnone).2]
    exact ⟨fun hlong => ⟨hlong, fun there _ hthere => absurd hthere (hnone there)⟩, fun hpass => hpass.1⟩

theorem name_extend (p : Path) (rel : List String) (name : String) :
    (p.extend (rel ++ [name])).name = name := by
  simp [Path.name, Path.extend]

include htree hp in
/-- **A search finds what is below the path and ends as the pattern does.** -/
theorem mem_glob_iff (hs : s ∈ Package.sourceSuffixes) (hpass : fs.Passable p) :
    q ∈ (fs.glob p ("*" ++ s)).paths ↔ fs.Below p q ∧ s.toList <:+ q.name.toList := by
  by_cases h : ∃ there, fs.locate p.toString = .ok (.occupied there .directory)
  · obtain ⟨there, h⟩ := h
    have hfound := (glob_failure_iff htree hp hs).2 hpass
    rw [glob_of_directory hs h] at hfound ⊢
    rw [mem_eraseDups, Glob.Found.each_paths hfound, mem_flatMap]
    constructor
    · rintro ⟨d, hd, hq⟩
      obtain ⟨rel, rfl, hrel⟩ := (mem_directoriesFrom_iff htree h).1 hd
      obtain ⟨name, rfl, hsome, hname⟩ :=
        (mem_select_iff htree hp h hs hrel (hpass.2 there rel h hrel)).1 hq
      exact ⟨⟨there, rel ++ [name], h, by simp, rfl, hsome⟩, by rwa [name_extend]⟩
    · rintro ⟨⟨there', below, hthere, hne, rfl, hsome⟩, hname⟩
      cases h.symm.trans hthere
      -- the entry stands in a directory, which is searched
      obtain ⟨e, he⟩ := Option.isSome_iff_exists.1 hsome
      have hrel := htree.entry_dropLast he
      rw [dropLast_append_of_ne_nil hne] at hrel
      rw [← dropLast_concat_getLast hne] at hname hsome ⊢
      rw [name_extend] at hname
      exact ⟨_, (mem_directoriesFrom_iff htree h).2 ⟨_, rfl, hrel⟩,
        (mem_select_iff htree hp h hs hrel (hpass.2 there _ h hrel)).2 ⟨_, rfl, hsome, hname⟩⟩
  · have hnone := fun there hthere => h ⟨there, hthere⟩
    rw [(glob_of_no_directory hs hnone).1]
    constructor
    · intro hmem
      cases hmem
    · rintro ⟨⟨there, -, hthere, -⟩, -⟩
      exact absurd hthere (hnone there)

end Files

namespace Package

variable {fs fs' : Files} {p q : Path}

/-! ## Source files -/

def sourcesOf (fs : Files) (p : Path) : List Path := sourceFiles (candidates fs p sourceSuffixes).paths

def IsSourceName (name : String) : Prop :=
  (∃ s ∈ sourceSuffixes, s.toList <:+ name.toList) ∧ name ≠ indexName

theorem searchable_iff (htree : fs.IsTree) (hp : p.Tidy) :
    (candidates fs p sourceSuffixes).failure = none ↔ fs.Passable p := by
  rw [candidates, Glob.Found.each_failure_iff]
  exact ⟨fun h => (Files.glob_failure_iff htree hp mem_cons_self).1 (h _ mem_cons_self),
    fun h s hs => (Files.glob_failure_iff htree hp hs).2 h⟩

section

variable (htree : fs.IsTree) (hp : p.Tidy) (hpass : fs.Passable p)

include htree hp hpass

theorem candidates_paths :
    (candidates fs p sourceSuffixes).paths = sourceSuffixes.flatMap fun s => (fs.glob p ("*" ++ s)).paths :=
  Glob.Found.each_paths ((searchable_iff htree hp).2 hpass)

/-- **The source files of a project** are the entries below it that are named as such. -/
theorem mem_sourcesOf_iff : q ∈ sourcesOf fs p ↔ fs.Below p q ∧ IsSourceName q.name := by
  rw [sourcesOf, sourceFiles, sortPaths, mem_mergeSort, mem_filter, bne_iff_ne,
    candidates_paths htree hp hpass, mem_flatMap, IsSourceName, ← and_assoc]
  refine and_congr_left fun _ => ?_
  constructor
  · rintro ⟨s, hs, hq⟩
    obtain ⟨hbelow, hname⟩ := (Files.mem_glob_iff htree hp hs hpass).1 hq
    exact ⟨hbelow, s, hs, hname⟩
  · rintro ⟨hbelow, s, hs, hname⟩
    exact ⟨s, hs, (Files.mem_glob_iff htree hp hs hpass).2 ⟨hbelow, hname⟩⟩

theorem nodup_sourcesOf : (sourcesOf fs p).Nodup := by
  have hpaths : (candidates fs p sourceSuffixes).paths.Nodup := by
    rw [candidates_paths htree hp hpass]
    change List.Nodup (_ ++ (_ ++ []))
    rw [append_nil, nodup_append]
    refine ⟨Files.nodup_glob (by decide) fs p, Files.nodup_glob (by decide) fs p, ?_⟩
    rintro q hq _ hq' rfl
    -- no name has both ends
    obtain ⟨-, hprisma⟩ := (Files.mem_glob_iff htree hp (by decide) hpass).1 hq
    obtain ⟨-, hopn⟩ := (Files.mem_glob_iff htree hp (by decide) hpass).1 hq'
    exact absurd (suffix_or_suffix_of_suffix hprisma hopn) (by decide)
  exact (mergeSort_perm _ _).nodup_iff.2 (hpaths.filter _)

/-- **The source files are listed in order,** each of them once. -/
theorem sourcesOf_strict :
    (sourcesOf fs p).Pairwise fun q r => namesBefore q.components r.components = true ∧ q ≠ r :=
  (sortPaths_pairwise _).and (nodup_sourcesOf htree hp hpass)

end

theorem namesBefore_antisymm {as bs : List String} (h : namesBefore as bs = true)
    (h' : namesBefore bs as = true) : as = bs := by
  induction as generalizing bs with
  | nil =>
    cases bs with
    | nil => rfl
    | cons b bs => cases h'
  | cons a as ih =>
    cases bs with
    | nil => cases h
    | cons b bs =>
      rw [namesBefore_cons] at h h'
      by_cases hab : a = b
      · rw [if_pos hab] at h
        rw [if_pos hab.symm] at h'
        rw [hab, ih h h']
      · rw [if_neg hab] at h
        rw [if_neg (Ne.symm hab)] at h'
        exact absurd (String.le_antisymm (of_decide_eq_true h) (of_decide_eq_true h')) hab

theorem components_extend (p : Path) (rel : List String) :
    (p.extend rel).components = p.components ++ rel := by
  rw [Path.components, Path.components]
  change (if p.root == "" then p.names ++ rel else p.root :: (p.names ++ rel)) = _
  split <;> rfl

theorem sourcesOf_congr {fs' : Files} (htree : fs.IsTree) (htree' : fs'.IsTree) (hp : p.Tidy)
    (hpass : fs.Passable p) (hpass' : fs'.Passable p)
    (h : ∀ q, q ∈ sourcesOf fs p ↔ q ∈ sourcesOf fs' p) : sourcesOf fs p = sourcesOf fs' p := by
  refine List.Perm.eq_of_pairwise ?_ (sortPaths_pairwise _) (sortPaths_pairwise _)
    ((perm_ext_iff_of_nodup (nodup_sourcesOf htree hp hpass) (nodup_sourcesOf htree' hp hpass')).2 h)
  intro q r hq hr hqr hrq
  obtain ⟨⟨_, a, -, -, rfl, -⟩, -⟩ := (mem_sourcesOf_iff htree hp hpass).1 hq
  obtain ⟨⟨_, b, -, -, rfl, -⟩, -⟩ := (mem_sourcesOf_iff htree' hp hpass').1 hr
  have hsame := namesBefore_antisymm hqr hrq
  rw [components_extend, components_extend] at hsame
  rw [append_cancel_left hsame]

end Package

end ScriptWorkbench
