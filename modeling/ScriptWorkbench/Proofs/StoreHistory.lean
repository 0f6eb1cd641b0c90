/-
A store is what was put into it (`history_answers`).

The values have to survive the files, so floating-point numbers are left out. The invariant says of each file
which value is in it (`Mirrors`). An operation writes one of the files, and the three have different names, so
that the other two keep theirs. Operations that nothing speaks against go through (`Mirrors.exists_run`).
-/
import ScriptWorkbench.Proofs.FileTrees
import ScriptWorkbench.Proofs.Scanned
import ScriptWorkbench.Proofs.StoreFiles

namespace ScriptWorkbench.Settings.Store

open ScriptWorkbench.Action List

variable {directory : Json} {now : String} {fields : Json.Fields}

/-! ## Calls -/

/-- An operation that changes a store, with the time when it is done. Updates of the settings are given as
an object. -/
inductive Call where
  | addPackage (now : String) (info : Json)
  | addSourcePath (now : String) (path : Json)
  | addPackagePath (now : String) (path : Json)
  | setOutputPath (now : String) (path : Json)
  | updateSettings (now : String) (updates : Json.Fields)
  | reopen (now : String)

/-- What a call does. Opening again gives the store anew. -/
def Call.run (directory : Json) (s : Store) : Call → Run Store
  | .addPackage now info => do
    let _ ← s.addPackage now info
    return s
  | .addSourcePath now path => do
    s.addSourcePath now path
    return s
  | .addPackagePath now path => do
    s.addPackagePath now path
    return s
  | .setOutputPath now path => do
    s.setOutputPath now path
    return s
  | .updateSettings now updates => do
    let _ ← s.updateSettings now (.obj updates)
    return s
  | .reopen now => openAt now directory

/-- Calls one after another, up to the first that fails. -/
def runAll (directory : Json) (s : Store) : List Call → Run Store
  | [] => return s
  | call :: calls => do runAll directory (← call.run directory s) calls

/-- What a call is given survives being written. -/
def Call.Exact : Call → Prop
  | .addPackage _ info => info.Exact
  | .updateSettings _ updates => ∀ f ∈ updates, f.1.isWhole ∧ f.2.Exact
  | _ => True

/-! ## What the calls amount to -/

/-- The absolute path that is kept for one that is given. -/
def resolvedText? (here : List String) : Json → Option String
  | .str text => some ((Path.ofString text).resolve here).toString
  | _ => none

/-- A package as it is kept, given its absolute path and the rest of what is said about it. -/
def packageOf (now path : String) (info : Json.Fields) : Json :=
  .obj [("name", (info.lookup (.whole "name")).getD .null),
    ("version", (info.lookup (.whole "version")).getD (.str "1.0.0")), ("path", .str path),
    ("main", (info.lookup (.whole "main")).getD (.str "index.prisma")), ("addedAt", .str now)]

def Call.package? (here : List String) : Call → Option Json
  | .addPackage now (.obj info) =>
    (resolvedText? here ((info.lookup (.whole "path")).getD .null)).map fun path => packageOf now path info
  | _ => none

def Call.sourcePath? (here : List String) : Call → Option String
  | .addSourcePath _ path => resolvedText? here path
  | _ => none

def Call.packagePath? (here : List String) : Call → Option String
  | .addPackagePath _ path => resolvedText? here path
  | _ => none

def Call.outputPath? (here : List String) : Call → Option String
  | .setOutputPath _ path => resolvedText? here path
  | _ => none

def Call.updates : Call → Json.Fields
  | .updateSettings _ updates => updates
  | _ => []

/-- An operation is given what it needs, so that it is not passed over in what the store knows. -/
def Call.Counts (here : List String) : Call → Prop
  | .addPackage now info => (Call.package? here (.addPackage now info)).isSome = true
  | .addSourcePath _ path | .addPackagePath _ path | .setOutputPath _ path =>
    (resolvedText? here path).isSome = true
  | .updateSettings .. | .reopen .. => True

/-- Fields without the time of the last change. -/
def timeless (fields : Json.Fields) : Json.Fields :=
  fields.filter (·.1 != .whole "lastUpdated")

/-- Fields with updates laid over them, in order. -/
def overlay (fields updates : Json.Fields) : Json.Fields :=
  updates.foldl (fun l f => Json.setField f.1 f.2 l) fields

/-- What a store knows, apart from times. -/
structure Memory where
  packages : List Json
  sourcePaths : List String
  packagePaths : List String
  outputPath : String
  settings : Json.Fields

def defaultPackagePaths (start : Files) : List String :=
  [((Path.mk "/" start.cwd).child "opn.import").toString,
    ((start.homePath.child ".opn").child "packages").toString]

/-- **What a store knows after calls.** -/
def Memory.after (start : Files) (calls : List Call) : Memory where
  packages := calls.filterMap (Call.package? start.cwd)
  sourcePaths := (calls.filterMap (Call.sourcePath? start.cwd)).eraseDups
  packagePaths := (defaultPackagePaths start ++ calls.filterMap (Call.packagePath? start.cwd)).eraseDups
  outputPath := (calls.filterMap (Call.outputPath? start.cwd)).getLastD
    ((Path.mk "/" start.cwd).child "opn_build").toString
  settings := overlay (("version", .str "1.0.0") :: freshSettings) (timeless (calls.flatMap Call.updates))

/-- A list with a text, if there is one, that is put behind the others unless it is there. -/
def enter (text : Option String) (l : List String) : List String :=
  match text with
  | some t => if t ∈ l then l else l ++ [t]
  | none => l

/-- What a store knows after one more call. -/
def Memory.step (start : Files) (m : Memory) (call : Call) : Memory where
  packages := m.packages ++ (call.package? start.cwd).toList
  sourcePaths := enter (call.sourcePath? start.cwd) m.sourcePaths
  packagePaths := enter (call.packagePath? start.cwd) m.packagePaths
  outputPath := (call.outputPath? start.cwd).getD m.outputPath
  settings := overlay m.settings (timeless call.updates)

theorem eraseDups_concat (l : List String) (text : Option String) :
    (l ++ text.toList).eraseDups = enter text l.eraseDups := by
  cases text with
  | none => rw [Option.toList, append_nil, enter]
  | some t =>
    rw [eraseDups_append, enter]
    by_cases hmem : t ∈ l
    · simp [removeAll, hmem]
    · simp [removeAll, hmem, eraseDups_cons]

theorem filterMap_concat {α : Type} (f : Call → Option α) (calls : List Call) (call : Call) :
    (calls ++ [call]).filterMap f = calls.filterMap f ++ (f call).toList := by
  rw [filterMap_append]
  cases hcall : f call with
  | none => rw [filterMap_cons_none hcall]; rfl
  | some x => rw [filterMap_cons_some hcall]; rfl

theorem Memory.after_concat (start : Files) (calls : List Call) (call : Call) :
    Memory.after start (calls ++ [call]) = (Memory.after start calls).step start call := by
  have houtput (l : List String) (text : Option String) (default : String) :
      (l ++ text.toList).getLastD default = text.getD (l.getLastD default) := by
    cases text <;> simp
  simp only [Memory.after, Memory.step, filterMap_concat, ← append_assoc, eraseDups_concat, houtput,
    flatMap_append, flatMap_singleton, timeless, filter_append, overlay,
    foldl_append]

theorem Memory.foldl_step (start : Files) (before calls : List Call) :
    calls.foldl (Memory.step start) (Memory.after start before) = Memory.after start (before ++ calls) := by
  induction calls generalizing before with
  | nil => rw [append_nil, foldl_nil]
  | cons call calls ih =>
    rw [foldl_cons, ← Memory.after_concat, ih, append_assoc, singleton_append]

def texts (l : List String) : Json := .arr (l.map .str)

def Memory.pathFields (m : Memory) : Json.Fields :=
  [("sourcePaths", texts m.sourcePaths), ("packagePaths", texts m.packagePaths),
    ("outputPath", .str m.outputPath)]

/-! ## The invariant -/

/-- **The files mirror what a store knows:** each of the three holds its part of it. -/
structure Mirrors (s : Store) (start : Files) (m : Memory) (fs : Files) : Prop where
  packages : ∃ time, Contains fs s.packagesFile (fresh time [("packages", .arr m.packages)])
  exact : ∀ p ∈ m.packages, p.Exact
  writable : ∀ p ∈ m.packages, p.writable = true
  paths : ∃ time, Contains fs s.pathsFile (fresh time m.pathFields)
  settings : ∃ fields, Contains fs s.settingsFile (.obj fields) ∧ (Json.obj fields).Exact ∧
    timeless fields = m.settings ∧ Json.writableFields fields = true
  cwd : fs.cwd = start.cwd
  home : fs.home = start.home

section Steps

variable {s : Store} {start fs fs' : Files} {m m' : Memory}

theorem Mirrors.savePackages (h : Mirrors s start m fs)
    (hsaved : Saved s.packagesFile (fresh now [("packages", .arr m'.packages)]) fs fs')
    (hexact : ∀ p ∈ m'.packages, p.Exact) (hpaths : m'.pathFields = m.pathFields)
    (hsettings : m'.settings = m.settings) : Mirrors s start m' fs' where
  packages := ⟨now, hsaved.contains⟩
  exact := hexact
  writable := by
    have hpackages := Json.writableFields_iff.1 hsaved.writable ("packages", .arr m'.packages) (by simp)
    exact Json.writableItems_iff.1 hpackages
  paths := hpaths ▸ h.paths.imp fun _ => hsaved.others _ _ s.apart_packages_paths.symm
  settings := hsettings ▸ h.settings.imp fun _ hfields =>
    ⟨hsaved.others _ _ s.apart_packages_settings.symm hfields.1, hfields.2⟩
  cwd := hsaved.keeps.cwd.trans h.cwd
  home := hsaved.home.trans h.home

theorem Mirrors.savePaths (h : Mirrors s start m fs)
    (hsaved : Saved s.pathsFile (fresh now m'.pathFields) fs fs')
    (hpackages : m'.packages = m.packages) (hsettings : m'.settings = m.settings) :
    Mirrors s start m' fs' where
  packages := hpackages ▸ h.packages.imp fun _ => hsaved.others _ _ s.apart_packages_paths
  exact := hpackages ▸ h.exact
  writable := hpackages ▸ h.writable
  paths := ⟨now, hsaved.contains⟩
  settings := hsettings ▸ h.settings.imp fun _ hfields =>
    ⟨hsaved.others _ _ s.apart_paths_settings.symm hfields.1, hfields.2⟩
  cwd := hsaved.keeps.cwd.trans h.cwd
  home := hsaved.home.trans h.home

theorem Mirrors.saveSettings (h : Mirrors s start m fs)
    (hsaved : Saved s.settingsFile (.obj fields) fs fs') (hexact : (Json.obj fields).Exact)
    (hsettings : timeless fields = m'.settings) (hpackages : m'.packages = m.packages)
    (hpaths : m'.pathFields = m.pathFields) : Mirrors s start m' fs' where
  packages := hpackages ▸ h.packages.imp fun _ => hsaved.others _ _ s.apart_packages_settings
  exact := hpackages ▸ h.exact
  writable := hpackages ▸ h.writable
  paths := hpaths ▸ h.paths.imp fun _ => hsaved.others _ _ s.apart_paths_settings
  settings := ⟨fields, hsaved.contains, hexact, hsettings, hsaved.writable⟩
  cwd := hsaved.keeps.cwd.trans h.cwd
  home := hsaved.home.trans h.home

/-! ## Steps that succeed -/

variable {α β : Type}

theorem perform_resolved_bind_eq_ok {v : Json} {f : String → Run β} {y : β}
    (h : (resolved v >>= f).perform fs = (.ok y, fs')) :
    ∃ text, resolvedText? fs.cwd v = some text ∧ (f text).perform fs = (.ok y, fs') := by
  obtain ⟨text, fs₁, hresolved, hrest⟩ := perform_bind_eq_ok h
  cases v with
  | str t =>
    obtain ⟨p, hp, hresolve⟩ := perform_shaped_bind_eq_ok hresolved
    rw [perform_bind_ok (perform_get fs)] at hresolve
    obtain ⟨q, fs₂, hlooked, htext⟩ := perform_bind_eq_ok hresolve
    obtain ⟨hq, rfl⟩ := perform_ofExcept_eq_ok hlooked
    cases htext
    refine ⟨_, ?_, hrest⟩
    cases hp
    rw [Files.resolve] at hq
    split at hq
    · cases hq
    · split at hq
      · cases hq
      · cases hq
        rfl
  | _ => cases hresolved

/-! ## Packages -/

/-- What holds of null, of texts and of all that is said about a package holds of all that is kept of it. -/
theorem forall_packageOf {P : Json → Prop} (now path : String) {info : Json.Fields} (hnull : P .null)
    (hstr : ∀ text, P (.str text)) (h : ∀ f ∈ info, P f.2) :
    ∃ fields, packageOf now path info = .obj fields ∧ (fields.map Prod.fst).Nodup ∧
      fields.all (·.1.isWhole) ∧ ∀ f ∈ fields, P f.2 := by
  have hgiven (key : Json.Name) {default : Json} (hdefault : P default) :
      P ((info.lookup key).getD default) := by
    cases hfound : info.lookup key with
    | none => exact hdefault
    | some v => exact h (key, v) (mem_of_lookup hfound)
  refine ⟨_, rfl, by simp, rfl, ?_⟩
  simp only [forall_mem_cons]
  exact ⟨hgiven _ hnull, hgiven _ (hstr _), hstr path, hgiven _ (hstr _), hstr now, forall_mem_nil _⟩

theorem exact_packageOf (now path : String) {info : Json.Fields}
    (h : (Json.obj info).Exact) : (packageOf now path info).Exact := by
  cases h with
  | obj _ _ hinfo =>
    obtain ⟨fields, hfields, hkeys, hwhole, hall⟩ := forall_packageOf now path .null .str hinfo
    rw [hfields]
    exact .obj hkeys hwhole hall

theorem writable_packageOf (now path : String) {info : Json.Fields}
    (h : (Json.obj info).writable = true) : (packageOf now path info).writable = true := by
  obtain ⟨fields, hfields, -, -, hall⟩ :=
    forall_packageOf (P := (·.writable = true)) now path rfl (fun _ => rfl) (Json.writableFields_iff.1 h)
  rw [hfields]
  exact Json.writableFields_iff.2 hall

theorem exact_fresh (now : String)
    (hkeys : (.whole "version" :: .whole "lastUpdated" :: fields.map Prod.fst).Nodup)
    (hwhole : fields.all (·.1.isWhole)) (h : ∀ f ∈ fields, f.2.Exact) : (fresh now fields).Exact := by
  refine .obj hkeys hwhole ?_
  rw [forall_mem_cons, forall_mem_cons]
  exact ⟨.str _, .str _, h⟩

theorem exact_packages (now : String) {l : List Json} (h : ∀ p ∈ l, p.Exact) :
    (fresh now [("packages", .arr l)]).Exact :=
  exact_fresh now (by simp) rfl (forall_mem_singleton.2 (.arr h))

theorem exact_texts (l : List String) : (texts l).Exact := by
  refine .arr fun v hv => ?_
  obtain ⟨t, -, rfl⟩ := mem_map.1 hv
  exact .str t

/-- **Adding a package** puts it behind the others. -/
theorem Mirrors.addPackage {info r : Json} (h : Mirrors s start m fs) (hinfo : info.Exact)
    (hrun : (s.addPackage now info).perform fs = (.ok r, fs')) :
    Call.package? start.cwd (.addPackage now info) = some r ∧
      Mirrors s start { m with packages := m.packages ++ [r] } fs' := by
  obtain ⟨time, hheld⟩ := h.packages
  rw [Store.addPackage, perform_bind_ok hheld.load] at hrun
  obtain ⟨name, hname, hrun⟩ := perform_shaped_bind_eq_ok hrun
  obtain ⟨version, hversion, hrun⟩ := perform_shaped_bind_eq_ok hrun
  obtain ⟨given, hgiven, hrun⟩ := perform_shaped_bind_eq_ok hrun
  obtain ⟨path, hpath, hrun⟩ := perform_resolved_bind_eq_ok hrun
  obtain ⟨main, hmain, hrun⟩ := perform_shaped_bind_eq_ok hrun
  -- only an object has members, so that success tells what was given
  cases info with
  | obj fields =>
    cases hname
    cases hversion
    cases hgiven
    cases hmain
    rw [h.cwd] at hpath
    obtain ⟨packages, hpackages, hrun⟩ := perform_shaped_bind_eq_ok hrun
    cases hpackages
    obtain ⟨config, hconfig, hrun⟩ := perform_shaped_bind_eq_ok hrun
    cases hconfig
    obtain ⟨v, fs₁, hsave, hreturn⟩ := perform_bind_eq_ok hrun
    cases hreturn
    refine ⟨by rw [Call.package?, hpath]; rfl, ?_⟩
    have hexact : ∀ p ∈ m.packages ++ [packageOf now path fields], p.Exact :=
      forall_mem_append.2 ⟨h.exact, forall_mem_singleton.2 (exact_packageOf now path hinfo)⟩
    exact h.savePackages (saved_of_save (exact_packages now hexact) (save_of_saveAt hsave)) hexact rfl rfl
  | _ => cases hname

/-! ## Paths -/

theorem exact_pathFields (now : String) (m : Memory) : (fresh now m.pathFields).Exact := by
  refine exact_fresh now (by simp [Memory.pathFields]) rfl ?_
  simp only [Memory.pathFields, forall_mem_cons]
  exact ⟨exact_texts _, exact_texts _, .str _, forall_mem_nil _⟩

theorem writable_pathFields (now : String) (m : Memory) : (fresh now m.pathFields).writable = true := by
  have htexts (l : List String) : (texts l).writable = true := by
    refine Json.writableItems_iff.2 fun v hv => ?_
    obtain ⟨t, -, rfl⟩ := mem_map.1 hv
    rfl
  refine Json.writableFields_iff.2 ?_
  simp only [Memory.pathFields, forall_mem_cons]
  exact ⟨rfl, rfl, htexts _, htexts _, rfl, forall_mem_nil _⟩

theorem append_texts (l : List String) (path : String) :
    (texts l).append (.str path) = .ok (texts (l ++ [path])) := by
  rw [texts, texts, map_append]
  rfl

theorem holds_texts (path : String) (l : List String) :
    (texts l).holds path = .ok (decide (path ∈ l)) := by
  rw [texts, Json.holds, any_map]
  congr 1
  rw [Bool.eq_iff_iff, any_eq_true, decide_eq_true_iff]
  constructor
  · rintro ⟨t, ht, hsame⟩
    obtain rfl : t = path := beq_iff_eq.1 hsame
    exact ht
  · intro hmem
    exact ⟨path, hmem, beq_self_eq_true path⟩

/-- One of the two lists of paths in a memory: the field it is kept in, what is `known` of it, and the memory
with another list in its place. -/
structure PathList (m : Memory) where
  field : String
  known : List String
  set : List String → Memory
  member : ∀ time, (fresh time m.pathFields).member field = .ok (texts known)
  assign : ∀ time l, (fresh time m.pathFields).assign field (texts l) = .ok (fresh time (set l).pathFields)
  set_known : set known = m
  packages_set : ∀ l, (set l).packages = m.packages
  settings_set : ∀ l, (set l).settings = m.settings

def Memory.sourceList (m : Memory) : PathList m where
  field := "sourcePaths"
  known := m.sourcePaths
  set l := { m with sourcePaths := l }
  member _ := rfl
  assign _ _ := rfl
  set_known := rfl
  packages_set _ := rfl
  settings_set _ := rfl

def Memory.packageList (m : Memory) : PathList m where
  field := "packagePaths"
  known := m.packagePaths
  set l := { m with packagePaths := l }
  member _ := rfl
  assign _ _ := rfl
  set_known := rfl
  packages_set _ := rfl
  settings_set _ := rfl

/-- **Adding a path** to one of the two lists. -/
theorem Mirrors.addPath {path : Json} {u : Unit} (h : Mirrors s start m fs) (list : PathList m)
    (hrun : (s.addPath now list.field path).perform fs = (.ok u, fs')) :
    ∃ text, resolvedText? start.cwd path = some text ∧
      Mirrors s start (list.set (if text ∈ list.known then list.known else list.known ++ [text])) fs' := by
  obtain ⟨time, hheld⟩ := h.paths
  rw [Store.addPath, perform_bind_ok hheld.load] at hrun
  obtain ⟨text, htext, hrun⟩ := perform_resolved_bind_eq_ok hrun
  rw [h.cwd] at htext
  refine ⟨text, htext, ?_⟩
  obtain ⟨l, hl, hrun⟩ := perform_shaped_bind_eq_ok hrun
  rw [list.member] at hl
  cases hl
  obtain ⟨b, hb, hrun⟩ := perform_shaped_bind_eq_ok hrun
  rw [holds_texts] at hb
  cases hb
  by_cases hmem : text ∈ list.known
  · rw [if_pos (decide_eq_true hmem)] at hrun
    cases hrun
    rw [if_pos hmem, list.set_known]
    exact h
  · rw [if_neg (by rw [decide_eq_true_iff]; exact hmem)] at hrun
    obtain ⟨config, hconfig, hrun⟩ := perform_shaped_bind_eq_ok hrun
    rw [append_texts] at hconfig
    obtain rfl : fresh time (list.set (list.known ++ [text])).pathFields = config :=
      Except.ok.inj ((list.assign time _).symm.trans hconfig)
    obtain ⟨v, fs₁, hsave, hreturn⟩ := perform_bind_eq_ok hrun
    cases hreturn
    rw [if_neg hmem]
    exact h.savePaths (saved_of_save (exact_pathFields now _) (save_of_saveAt hsave)) (list.packages_set _)
      (list.settings_set _)

theorem Mirrors.setOutputPath {path : Json} {u : Unit} (h : Mirrors s start m fs)
    (hrun : (s.setOutputPath now path).perform fs = (.ok u, fs')) :
    ∃ text, resolvedText? start.cwd path = some text ∧
      Mirrors s start { m with outputPath := text } fs' := by
  obtain ⟨time, hheld⟩ := h.paths
  rw [Store.setOutputPath, perform_bind_ok hheld.load] at hrun
  obtain ⟨text, htext, hrun⟩ := perform_resolved_bind_eq_ok hrun
  rw [h.cwd] at htext
  refine ⟨text, htext, ?_⟩
  obtain ⟨config, hconfig, hrun⟩ := perform_shaped_bind_eq_ok hrun
  cases hconfig
  obtain ⟨v, fs₁, hsave, hreturn⟩ := perform_bind_eq_ok hrun
  cases hreturn
  exact h.savePaths (saved_of_save (exact_pathFields now _) (save_of_saveAt hsave)) rfl rfl

/-! ## Settings -/

theorem same_value (a b : Json.Name) : a.value.same b.value = (a == b) := by
  rw [Bool.eq_iff_iff, beq_iff_eq]
  cases a <;> cases b <;> simp [Json.Name.value, Json.same, Json.number?]

theorem setEntry_entriesOf (key : Json.Name) (v : Json) (fields : Json.Fields) :
    Json.setEntry key.value v (Json.entriesOf fields) = Json.entriesOf (Json.setField key v fields) := by
  induction fields with
  | nil => rfl
  | cons f fields ih =>
    rw [Json.entriesOf, map_cons, Json.setEntry, Json.setField, same_value]
    by_cases hkey : f.1 = key
    · rw [if_pos (beq_iff_eq.2 hkey), if_pos hkey]
      rfl
    · rw [if_neg (by rwa [beq_iff_eq]), if_neg hkey]
      exact congrArg _ ih

theorem update_entriesOf (fields updates : Json.Fields) :
    Json.update (Json.entriesOf fields) (.obj updates) =
      (Json.entriesOf (overlay fields updates), .ok ()) := by
  rw [Json.update]
  induction updates generalizing fields with
  | nil => rfl
  | cons f updates ih => rw [foldl_cons, setEntry_entriesOf, ih, overlay, overlay, foldl_cons]

theorem ofEntries_entriesOf (fields : Json.Fields) :
    Json.ofEntries (Json.entriesOf fields) = .obj fields := by
  have hname (name : Json.Name) : Json.keyName name.value = name := by cases name <;> rfl
  simp [Json.ofEntries, Json.entriesOf, Function.comp_def, hname]

theorem exact_overlay {updates : Json.Fields} (h : (Json.obj fields).Exact)
    (hupdates : ∀ f ∈ updates, f.1.isWhole ∧ f.2.Exact) : (Json.obj (overlay fields updates)).Exact := by
  induction updates generalizing fields with
  | nil => exact h
  | cons f updates ih =>
    obtain ⟨hf, hrest⟩ := forall_mem_cons.1 hupdates
    exact ih (h.setField f.1 hf.1 hf.2) hrest

theorem mem_overlay {updates : Json.Fields} {f : Json.Name × Json} (h : f ∈ overlay fields updates) :
    f ∈ fields ∨ f ∈ updates := by
  induction updates generalizing fields with
  | nil => exact .inl h
  | cons g updates ih =>
    obtain hf | hf := ih h
    · obtain rfl | hf := Json.mem_setField hf
      · exact .inr mem_cons_self
      · exact .inl hf
    · exact .inr (mem_cons_of_mem g hf)

theorem timeless_cons (f : Json.Name × Json) (fields : Json.Fields) :
    timeless (f :: fields) = if f.1 = .whole "lastUpdated" then timeless fields else f :: timeless fields := by
  rw [timeless, filter_cons]
  by_cases hf : f.1 = .whole "lastUpdated"
  · rw [if_pos hf, if_neg (by rw [hf]; decide)]
    rfl
  · rw [if_neg hf, if_pos (by rwa [bne_iff_ne])]
    rfl

theorem timeless_setField (key : Json.Name) (v : Json) (fields : Json.Fields) :
    timeless (Json.setField key v fields) =
      if key = .whole "lastUpdated" then timeless fields else Json.setField key v (timeless fields) := by
  induction fields with
  | nil => exact timeless_cons (key, v) []
  | cons f fields ih =>
    obtain ⟨k, w⟩ := f
    by_cases hk : k = key
    · subst hk
      by_cases htime : k = .whole "lastUpdated" <;> simp [Json.setField, timeless_cons, htime]
    · by_cases htime : k = .whole "lastUpdated" <;> by_cases hkey : key = .whole "lastUpdated" <;>
        simp_all [Json.setField, timeless_cons]

theorem timeless_overlay (fields updates : Json.Fields) :
    timeless (overlay fields updates) = overlay (timeless fields) (timeless updates) := by
  induction updates generalizing fields with
  | nil => rfl
  | cons f updates ih =>
    have hfirst : overlay fields (f :: updates) = overlay (Json.setField f.1 f.2 fields) updates := rfl
    rw [hfirst, ih, timeless_setField, timeless_cons]
    by_cases hf : f.1 = .whole "lastUpdated"
    · rw [if_pos hf, if_pos hf]
    · rw [if_neg hf, if_neg hf]
      rfl

/-- **Updating settings** lays the updates over them. -/
theorem Mirrors.updateSettings {updates : Json.Fields} {r : Json}
    (h : Mirrors s start m fs) (hupdates : ∀ f ∈ updates, f.1.isWhole ∧ f.2.Exact)
    (hrun : (s.updateSettings now (.obj updates)).perform fs = (.ok r, fs')) :
    Mirrors s start { m with settings := overlay m.settings (timeless updates) } fs' := by
  obtain ⟨fields, hheld, hexact, htimeless, -⟩ := h.settings
  rw [Store.updateSettings, perform_bind_ok hheld.load] at hrun
  dsimp only at hrun
  rw [update_entriesOf] at hrun
  dsimp only at hrun
  rw [ofEntries_entriesOf] at hrun
  -- an update may name the time too, but the time of the update is set after it
  have hvalue := (exact_overlay hexact hupdates).setField "lastUpdated" rfl (.str now)
  refine h.saveSettings (saved_of_save hvalue (save_of_saveAt hrun)) hvalue ?_ rfl rfl
  rw [timeless_setField, if_pos rfl, timeless_overlay, htimeless]

/-! ## Opening -/

theorem eraseDups_defaultPackagePaths (start : Files) :
    (defaultPackagePaths start).eraseDups = defaultPackagePaths start := by
  have hends : "opn.import".toList.getLast? = some 't' ∧ "packages".toList.getLast? = some 's' := by decide
  have hfirst := Path.toString_child_getLast (by decide) (by decide) hends.1 (Path.mk "/" start.cwd)
  have hsecond := Path.toString_child_getLast (by decide) (by decide) hends.2
    (start.homePath.child ".opn")
  have hne : ((start.homePath.child ".opn").child "packages").toString ≠
      ((Path.mk "/" start.cwd).child "opn.import").toString := by
    intro heq
    rw [heq, hfirst] at hsecond
    cases hsecond
  simp [defaultPackagePaths, eraseDups_cons, hne]

theorem freshPaths_eq_ok {new : Json.Fields} (hcwd : fs.cwd = start.cwd)
    (hhome : fs.home = start.home) (h : freshPaths.perform fs = (.ok new, fs')) :
    new = (Memory.after start []).pathFields ∧ fs' = fs := by
  have hhomePath : fs.homePath = start.homePath := congrArg (Path.mk "/") hhome
  rw [freshPaths, perform_bind_ok (perform_get fs)] at h
  obtain ⟨here, fs₁, hlooked, hreturn⟩ := perform_bind_eq_ok h
  obtain ⟨hhere, rfl⟩ := perform_ofExcept_eq_ok hlooked
  cases hreturn
  rw [Files.workingPath] at hhere
  split at hhere
  · cases hhere
  · cases hhere
    have hpaths : Memory.pathFields (Memory.after start []) = [(.whole "sourcePaths", .arr []),
        (.whole "packagePaths", texts (defaultPackagePaths start)),
        (.whole "outputPath", .str ((Path.mk "/" start.cwd).child "opn_build").toString)] := by
      rw [← eraseDups_defaultPackagePaths start]
      rfl
    rw [hpaths, hcwd, hhomePath]
    exact ⟨rfl, rfl⟩

/-- None of the three files is there, not even when the directory has been made. -/
def Unused (s : Store) (fs : Files) : Prop :=
  ∀ file ∈ [s.packagesFile, s.pathsFile, s.settingsFile],
    Files.find? (fs.ensureDirectories s.directory).2 file = none

theorem openAt_eq_ok (h : (openAt now directory).perform fs = (.ok s, fs')) :
    directoryOf fs directory = .ok s.directory ∧
      (do saveNew now s.packagesFile (pure [("packages", .arr [])])
          saveNew now s.pathsFile freshPaths
          saveNew now s.settingsFile (pure freshSettings) : Run Unit).perform
        (fs.ensureDirectories s.directory).2 = (.ok (), fs') := by
  obtain ⟨p, hp, hrun⟩ := perform_shaped_bind_eq_ok h
  obtain ⟨u, fs₁, hmake, hrun⟩ := perform_bind_eq_ok hrun
  obtain ⟨u₁, fs₂, hpackages, hrun⟩ := perform_bind_eq_ok hrun
  obtain ⟨u₂, fs₃, hpaths, hrun⟩ := perform_bind_eq_ok hrun
  obtain ⟨u₃, fs₄, hsettings, hreturn⟩ := perform_bind_eq_ok hrun
  cases hreturn
  have hmade := perform_onFiles_eq_ok hmake
  rw [perform_making] at hmade
  refine ⟨hp, ?_⟩
  rw [hmade, perform_bind_ok hpackages, perform_bind_ok hpaths]
  exact hsettings

/-- **A store in whose directory none of its files was** starts with what a new store knows. -/
theorem mirrors_of_openAt (hunused : s.Unused start)
    (h : (openAt now directory).perform start = (.ok s, fs')) :
    Mirrors s start (Memory.after start []) fs' := by
  have hgrows := Files.ensureDirectories_grows start s.directory
  have hrun := (openAt_eq_ok h).2
  unfold Unused at hunused
  simp only [forall_mem_cons] at hunused
  obtain ⟨hnoPackages, hnoPaths, hnoSettings, -⟩ := hunused
  obtain ⟨u₁, fs₁, hpackages, hrun⟩ := perform_bind_eq_ok hrun
  obtain ⟨u₂, fs₂, hpaths, hsettings⟩ := perform_bind_eq_ok hrun
  -- one file after the other is created, and the next one is not there by that
  obtain ⟨new, fs₃, hnew, hsavePackages⟩ := save_of_saveNew hnoPackages hpackages
  cases hnew
  have hfirst := saved_of_save (exact_packages now (forall_mem_nil _)) hsavePackages
  obtain ⟨new, fs₃, hnew, hsavePaths⟩ := save_of_saveNew
    (hfirst.absent _ s.apart_packages_paths.symm hnoPaths) hpaths
  obtain ⟨rfl, rfl⟩ := freshPaths_eq_ok (hfirst.keeps.cwd.trans hgrows.cwd) (hfirst.home.trans hgrows.home) hnew
  have hsecond := saved_of_save (exact_pathFields now _) hsavePaths
  have hnoSettings := hfirst.absent _ s.apart_packages_settings.symm hnoSettings
  obtain ⟨new, fs₄, hnew, hsaveSettings⟩ := save_of_saveNew
    (hsecond.absent _ s.apart_paths_settings.symm hnoSettings) hsettings
  cases hnew
  have hexact : (fresh now freshSettings).Exact := by
    refine exact_fresh now (by decide) rfl ?_
    simp only [freshSettings, forall_mem_cons]
    exact ⟨.bool _, .bool _, .str _, .bool _, .str _, forall_mem_nil _⟩
  have hthird := saved_of_save hexact hsaveSettings
  refine ⟨⟨now, ?_⟩, forall_mem_nil _, forall_mem_nil _, ⟨now, ?_⟩,
    ⟨_, hthird.contains, hexact, ?_, hthird.writable⟩, ?_, ?_⟩
  · exact hthird.others _ _ s.apart_packages_settings
      (hsecond.others _ _ s.apart_packages_paths hfirst.contains)
  · exact hthird.others _ _ s.apart_paths_settings hsecond.contains
  · rfl
  · rw [hthird.keeps.cwd, hsecond.keeps.cwd, hfirst.keeps.cwd, hgrows.cwd]
  · rw [hthird.home, hsecond.home, hfirst.home, hgrows.home]

theorem directoryOf_congr (h : fs.home = start.home) (directory : Json) :
    directoryOf fs directory = directoryOf start directory := by
  have hhomePath : fs.homePath = start.homePath := congrArg (Path.mk "/") h
  cases directory with
  | null => rw [directoryOf, directoryOf, homeDirectory, homeDirectory, hhomePath]
  | _ => rfl

/-- Whatever leaves what the three files hold leaves the mirror. -/
theorem Mirrors.mono (h : Mirrors s start m fs) (hkept : ∀ file ∈ [s.packagesFile, s.pathsFile, s.settingsFile],
    ∀ v, Contains fs file v → Contains fs' file v) (hcwd : fs'.cwd = fs.cwd) (hhome : fs'.home = fs.home) :
    Mirrors s start m fs' := by
  simp only [forall_mem_cons] at hkept
  obtain ⟨time, hpackages⟩ := h.packages
  obtain ⟨time', hpaths⟩ := h.paths
  obtain ⟨fields, hsettings, hexact, htimeless⟩ := h.settings
  exact ⟨⟨time, hkept.1 _ hpackages⟩, h.exact, h.writable, ⟨time', hkept.2.1 _ hpaths⟩,
    ⟨fields, hkept.2.2.1 _ hsettings, hexact, htimeless⟩, hcwd.trans h.cwd, hhome.trans h.home⟩

theorem Mirrors.grows (h : Mirrors s start m fs) (hgrows : fs.Grows fs') : Mirrors s start m fs' := by
  refine h.mono ?_ hgrows.cwd hgrows.home
  rintro file - v ⟨text, hread, hvalue⟩
  exact ⟨text, hgrows.readText hread, hvalue⟩

/-- **Opening a store again** changes nothing in what it knows. -/
theorem Mirrors.reopen {s' : Store} (h : Mirrors s start m fs)
    (hdirectory : directoryOf start directory = .ok s.directory)
    (hrun : (openAt now directory).perform fs = (.ok s', fs')) :
    s' = s ∧ Mirrors s start m fs' := by
  obtain ⟨hsame, hrun⟩ := openAt_eq_ok hrun
  have hgrows := Files.ensureDirectories_grows fs s'.directory
  rw [directoryOf_congr h.home, hdirectory] at hsame
  obtain rfl : s = s' := congrArg Store.mk (Except.ok.inj hsame)
  -- making the directory, which is there, could only add something
  have hmade := h.grows hgrows
  obtain ⟨time, hpackages⟩ := hmade.packages
  obtain ⟨time', hpaths⟩ := hmade.paths
  obtain ⟨fields, hsettings, -⟩ := hmade.settings
  rw [perform_bind_ok (hpackages.saveNew _), perform_bind_ok (hpaths.saveNew _), hsettings.saveNew] at hrun
  cases hrun
  exact ⟨rfl, hmade⟩

/-! ## Calls one after the other -/

variable {directory : Json} {s' : Store}

theorem perform_return_eq_ok {a : Run α} (h : (a >>= fun _ => pure s).perform fs = (.ok s', fs')) :
    s' = s ∧ ∃ r, a.perform fs = (.ok r, fs') := by
  obtain ⟨r, fs₁, ha, hreturn⟩ := perform_bind_eq_ok h
  cases hreturn
  exact ⟨rfl, r, ha⟩

/-- **One call:** it counts, and the files mirror what the store knows with it. -/
theorem Mirrors.step {call : Call} (h : Mirrors s start m fs) (hexact : call.Exact)
    (hdirectory : directoryOf start directory = .ok s.directory)
    (hrun : (call.run directory s).perform fs = (.ok s', fs')) :
    s' = s ∧ call.Counts start.cwd ∧ Mirrors s start (m.step start call) fs' := by
  cases call with
  | addPackage now info =>
    obtain ⟨rfl, r, hcall⟩ := perform_return_eq_ok hrun
    obtain ⟨hp, hmirrors⟩ := h.addPackage hexact hcall
    rw [Call.Counts, Memory.step, hp]
    exact ⟨rfl, rfl, hmirrors⟩
  | addSourcePath now path =>
    obtain ⟨rfl, r, hcall⟩ := perform_return_eq_ok hrun
    obtain ⟨text, htext, hmirrors⟩ := h.addPath m.sourceList hcall
    refine ⟨rfl, by rw [Call.Counts, htext]; rfl, ?_⟩
    simp only [Memory.step, Call.package?, Call.sourcePath?, htext, Option.toList, append_nil]
    exact hmirrors
  | addPackagePath now path =>
    obtain ⟨rfl, r, hcall⟩ := perform_return_eq_ok hrun
    obtain ⟨text, htext, hmirrors⟩ := h.addPath m.packageList hcall
    refine ⟨rfl, by rw [Call.Counts, htext]; rfl, ?_⟩
    simp only [Memory.step, Call.package?, Call.packagePath?, htext, Option.toList, append_nil]
    exact hmirrors
  | setOutputPath now path =>
    obtain ⟨rfl, r, hcall⟩ := perform_return_eq_ok hrun
    obtain ⟨text, htext, hmirrors⟩ := h.setOutputPath hcall
    refine ⟨rfl, by rw [Call.Counts, htext]; rfl, ?_⟩
    simp only [Memory.step, Call.package?, Call.outputPath?, htext, Option.toList, append_nil]
    exact hmirrors
  | updateSettings now updates =>
    obtain ⟨rfl, r, hcall⟩ := perform_return_eq_ok hrun
    refine ⟨rfl, trivial, ?_⟩
    simp only [Memory.step, Call.package?, Option.toList, append_nil]
    exact h.updateSettings hexact hcall
  | reopen now =>
    obtain ⟨rfl, hmirrors⟩ := h.reopen hdirectory hrun
    refine ⟨rfl, trivial, ?_⟩
    simp only [Memory.step, Call.package?, Option.toList, append_nil]
    exact hmirrors

/-- **All calls:** the store stays the same one, and its files mirror what it knows in the end. -/
theorem Mirrors.run {calls : List Call} (h : Mirrors s start m fs) (hexact : ∀ c ∈ calls, c.Exact)
    (hdirectory : directoryOf start directory = .ok s.directory)
    (hrun : (runAll directory s calls).perform fs = (.ok s', fs')) :
    s' = s ∧ (∀ c ∈ calls, c.Counts start.cwd) ∧
      Mirrors s start (calls.foldl (Memory.step start) m) fs' := by
  induction calls generalizing m fs with
  | nil =>
    cases hrun
    exact ⟨rfl, forall_mem_nil _, h⟩
  | cons call calls ih =>
    obtain ⟨hcall, hcalls⟩ := forall_mem_cons.1 hexact
    obtain ⟨s₁, fs₁, hfirst, hrest⟩ := perform_bind_eq_ok hrun
    obtain ⟨rfl, hcounts, hmirrors⟩ := h.step hcall hdirectory hfirst
    obtain ⟨hsame, hall, hafter⟩ := ih hmirrors hcalls hrest
    exact ⟨hsame, forall_mem_cons.2 ⟨hcounts, hall⟩, hafter⟩

/-! ## Calls that do not fail -/

/-- A path is given as a text, and can be made absolute. -/
def resolves (fs : Files) : Json → Bool
  | .str text => (fs.resolve (Path.ofString text)).toOption.isSome
  | _ => false

/-- **A call that nothing speaks against:** its path can be made absolute, and no number that it is given has
too many digits. -/
def Call.fits (fs : Files) : Call → Bool
  | .addPackage _ info => resolves fs ((info.field? "path").getD .null) && info.writable
  | .addSourcePath _ path | .addPackagePath _ path | .setOutputPath _ path => resolves fs path
  | .updateSettings _ updates => Json.writableFields updates
  | .reopen _ => true

theorem perform_resolved {v : Json} (h : resolves fs v = true) :
    ∃ text, (resolved v).perform fs = (.ok text, fs) := by
  cases v with
  | str t =>
    obtain ⟨q, hq⟩ := exists_eq_ok h
    have hresolve : (ofExcept Failure.file (fs.resolve (Path.ofString t)) : Run Path).perform fs = (.ok q, fs) := by
      rw [hq]
      rfl
    exact ⟨q.toString, perform_bind_ok hresolve _⟩
  | _ => cases h

theorem Call.fits_congr (hcwd : fs'.cwd = fs.cwd) (hadrift : fs'.adrift = fs.adrift) (call : Call) :
    call.fits fs' = call.fits fs := by
  have hresolves (v : Json) : resolves fs' v = resolves fs v := by
    cases v with
    | str t => rw [resolves, resolves, Files.resolve, Files.resolve, hcwd, hadrift]
    | _ => rfl
  cases call <;> simp only [Call.fits, hresolves]

theorem Mirrors.exists_addPackage {info : Json} (h : Mirrors s start m fs) (now : String) (hexact : info.Exact)
    (hfits : (Call.addPackage now info).fits fs = true) :
    ∃ p fs', (s.addPackage now info).perform fs = (.ok p, fs') ∧ fs.Keeps fs' := by
  rw [Call.fits, Bool.and_eq_true] at hfits
  obtain ⟨hpath, hwritable⟩ := hfits
  cases info with
  | obj info =>
    obtain ⟨time, hheld⟩ := h.packages
    obtain ⟨path, hpath⟩ := perform_resolved hpath
    have hexact := exact_packages now (forall_mem_append.2
      ⟨h.exact, forall_mem_singleton.2 (exact_packageOf now path hexact)⟩)
    have hwritable : (fresh now [("packages", .arr (m.packages ++ [packageOf now path info]))]).writable = true := by
      refine Json.writableFields_iff.2 ?_
      simp only [forall_mem_cons]
      exact ⟨rfl, rfl, Json.writableItems_iff.2 (forall_mem_append.2
        ⟨h.writable, forall_mem_singleton.2 (writable_packageOf now path hwritable)⟩), forall_mem_nil _⟩
    obtain ⟨w, fs', hsave, hkeep⟩ := hheld.exists_saveFresh now time hexact hwritable
    refine ⟨packageOf now path info, fs', ?_, hkeep⟩
    rw [Store.addPackage, perform_bind_ok hheld.load]
    change (resolved ((Json.field? "path" (Json.obj info)).getD .null) >>= fun path =>
      (saveAt now s.packagesFile (fresh time [("packages", .arr (m.packages ++ [packageOf now path info]))]) >>=
        fun _ => pure (packageOf now path info))).perform fs = _
    rw [perform_bind_ok hpath, perform_bind_ok hsave]
    rfl
  | _ => cases hpath

theorem Mirrors.exists_addPath {path : Json} (h : Mirrors s start m fs) (now : String) (list : PathList m)
    (hfits : resolves fs path = true) :
    ∃ fs', (s.addPath now list.field path).perform fs = (.ok (), fs') ∧ fs.Keeps fs' := by
  obtain ⟨time, hheld⟩ := h.paths
  obtain ⟨text, hpath⟩ := perform_resolved hfits
  obtain ⟨w, fs', hsave, hkeep⟩ := hheld.exists_saveFresh now time
    (exact_pathFields now (list.set (list.known ++ [text]))) (writable_pathFields now _)
  have hconfig : ((texts list.known).append (.str text) >>= (fresh time m.pathFields).assign list.field) =
      .ok (fresh time (list.set (list.known ++ [text])).pathFields) := by
    rw [append_texts]
    exact list.assign time _
  rw [Store.addPath, perform_bind_ok hheld.load, perform_bind_ok hpath,
    perform_bind_ok (perform_shaped (list.member time) fs), perform_bind_ok (perform_shaped (holds_texts text _) fs)]
  by_cases hmem : text ∈ list.known
  · rw [if_pos (decide_eq_true hmem)]
    exact ⟨fs, rfl, .refl fs⟩
  · rw [if_neg (by rwa [decide_eq_true_iff]), perform_bind_ok (perform_shaped hconfig fs)]
    exact ⟨fs', perform_bind_ok hsave _, hkeep⟩

theorem Mirrors.exists_setOutputPath {path : Json} (h : Mirrors s start m fs) (now : String)
    (hfits : resolves fs path = true) :
    ∃ fs', (s.setOutputPath now path).perform fs = (.ok (), fs') ∧ fs.Keeps fs' := by
  obtain ⟨time, hheld⟩ := h.paths
  obtain ⟨text, hpath⟩ := perform_resolved hfits
  obtain ⟨w, fs', hsave, hkeep⟩ := hheld.exists_saveFresh now time
    (exact_pathFields now { m with outputPath := text }) (writable_pathFields now _)
  rw [Store.setOutputPath, perform_bind_ok hheld.load, perform_bind_ok hpath]
  exact ⟨fs', perform_bind_ok hsave _, hkeep⟩

theorem Mirrors.exists_updateSettings {updates : Json.Fields} (h : Mirrors s start m fs) (now : String)
    (hexact : ∀ f ∈ updates, f.1.isWhole ∧ f.2.Exact) (hfits : Json.writableFields updates = true) :
    ∃ r fs', (s.updateSettings now (.obj updates)).perform fs = (.ok r, fs') ∧ fs.Keeps fs' := by
  obtain ⟨fields, hheld, hfields, -, hwritable⟩ := h.settings
  have hvalue := (exact_overlay hfields hexact).setField "lastUpdated" rfl (.str now)
  rw [Json.writableFields_iff] at hfits hwritable
  obtain ⟨w, fs', hsave, hkeep⟩ := hheld.exists_saveAt now _ hvalue <| Json.writableFields_iff.2 fun f hf => by
    obtain rfl | hf := Json.mem_setField hf
    · rfl
    · exact (mem_overlay hf).elim (hwritable f) (hfits f)
  rw [Store.updateSettings, perform_bind_ok hheld.load]
  dsimp only
  rw [update_entriesOf]
  dsimp only
  rw [ofEntries_entriesOf]
  exact ⟨w, fs', hsave, hkeep⟩

theorem Mirrors.exists_reopen (h : Mirrors s start m fs) (now : String)
    (hdirectory : directoryOf start directory = .ok s.directory)
    (hthere : fs.isDirectory s.directory.toString = true) :
    (openAt now directory).perform fs = (.ok s, fs) := by
  obtain ⟨time, hpackages⟩ := h.packages
  obtain ⟨time', hpaths⟩ := h.paths
  obtain ⟨fields, hsettings, -⟩ := h.settings
  have hmake : (onFiles (Files.making s.directory)).perform fs = (.ok (), fs) := by
    rw [onFiles, perform_within, id, perform_making, Files.ensureDirectories_of_isDirectory hthere]
    rfl
  rw [openAt, perform_bind_ok (perform_get fs), directoryOf_congr h.home, hdirectory]
  change (onFiles (Files.making s.directory) >>= _).perform fs = _
  rw [perform_bind_ok hmake, perform_bind_ok (hpackages.saveNew _), perform_bind_ok (hpaths.saveNew _),
    perform_bind_ok (hsettings.saveNew _)]
  rfl

theorem Mirrors.exists_step {call : Call} (h : Mirrors s start m fs) (hexact : call.Exact)
    (hfits : call.fits fs = true) (hdirectory : directoryOf start directory = .ok s.directory)
    (hthere : fs.isDirectory s.directory.toString = true) :
    ∃ fs', (call.run directory s).perform fs = (.ok s, fs') ∧ fs.Keeps fs' := by
  cases call with
  | addPackage now info =>
    obtain ⟨p, fs', hrun, hkeep⟩ := h.exists_addPackage now hexact hfits
    exact ⟨fs', perform_bind_ok hrun _, hkeep⟩
  | addSourcePath now path =>
    obtain ⟨fs', hrun, hkeep⟩ := h.exists_addPath now m.sourceList hfits
    exact ⟨fs', perform_bind_ok hrun _, hkeep⟩
  | addPackagePath now path =>
    obtain ⟨fs', hrun, hkeep⟩ := h.exists_addPath now m.packageList hfits
    exact ⟨fs', perform_bind_ok hrun _, hkeep⟩
  | setOutputPath now path =>
    obtain ⟨fs', hrun, hkeep⟩ := h.exists_setOutputPath now hfits
    exact ⟨fs', perform_bind_ok hrun _, hkeep⟩
  | updateSettings now updates =>
    obtain ⟨r, fs', hrun, hkeep⟩ := h.exists_updateSettings now hexact hfits
    exact ⟨fs', perform_bind_ok hrun _, hkeep⟩
  | reopen now => exact ⟨fs, h.exists_reopen now hdirectory hthere, .refl fs⟩

/-- **A store goes on.** Once it is open, calls that nothing speaks against succeed one after the other. -/
theorem Mirrors.exists_run {calls : List Call} (h : Mirrors s start m fs) (hexact : ∀ c ∈ calls, c.Exact)
    (hfits : ∀ c ∈ calls, c.fits fs = true) (hdirectory : directoryOf start directory = .ok s.directory)
    (hthere : fs.isDirectory s.directory.toString = true) :
    ∃ fs', (runAll directory s calls).perform fs = (.ok s, fs') := by
  induction calls generalizing m fs with
  | nil => exact ⟨fs, rfl⟩
  | cons call calls ih =>
    obtain ⟨hcall, hcalls⟩ := forall_mem_cons.1 hexact
    obtain ⟨hfirst, hrest⟩ := forall_mem_cons.1 hfits
    obtain ⟨fs₁, hrun, hkeep⟩ := h.exists_step hcall hfirst hdirectory hthere
    obtain ⟨fs', hafter⟩ := ih (h.step hcall hdirectory hrun).2.2 hcalls
      (fun c hc => (c.fits_congr hkeep.cwd hkeep.adrift).trans (hrest c hc)) (Files.isDirectory_of_keeps hkeep hthere)
    exact ⟨fs', (perform_bind_ok hrun _).trans hafter⟩

end Steps

/-- **A store answers as if it had never been written to files.** Let it be opened where none of its files
was, and let calls follow that all succeed and are given no floating-point numbers; among them the store
may be opened again. Then the packages are those that were added, in order. Both lists of paths have the
resolved paths that were added, the first of equal ones only, the packages' behind the two that were there
from the start. The path for the output is the last one that was set. The settings are the first ones
with the updates laid over them in order, if the time of the last change is left out on both sides. No
call is passed over in this, and asking changes nothing. -/
theorem history_answers {now : String} {directory : Json} {s s' : Store} {start opened fs : Files}
    {calls : List Call} (hopen : (openAt now directory).perform start = (.ok s, opened))
    (hunused : s.Unused start) (hexact : ∀ c ∈ calls, c.Exact)
    (hcalls : (runAll directory s calls).perform opened = (.ok s', fs)) :
    s' = s ∧ (∀ c ∈ calls, c.Counts start.cwd) ∧
      s.packages.perform fs = (.ok (.arr (calls.filterMap (Call.package? start.cwd))), fs) ∧
      (∃ time, s.paths.perform fs = (.ok (fresh time
        [("sourcePaths", texts (calls.filterMap (Call.sourcePath? start.cwd)).eraseDups),
          ("packagePaths", texts (defaultPackagePaths start ++
            calls.filterMap (Call.packagePath? start.cwd)).eraseDups),
          ("outputPath", .str ((calls.filterMap (Call.outputPath? start.cwd)).getLastD
            ((Path.mk "/" start.cwd).child "opn_build").toString))]), fs)) ∧
      ∃ fields, s.settings.perform fs = (.ok (.obj fields), fs) ∧
        timeless fields = overlay (("version", .str "1.0.0") :: freshSettings)
          (timeless (calls.flatMap Call.updates)) := by
  obtain ⟨hdirectory, -⟩ := openAt_eq_ok hopen
  obtain ⟨rfl, hcounts, hmirrors⟩ := (mirrors_of_openAt hunused hopen).run hexact hdirectory hcalls
  rw [Memory.foldl_step, List.nil_append] at hmirrors
  obtain ⟨time, hpackages⟩ := hmirrors.packages
  obtain ⟨time', hpaths⟩ := hmirrors.paths
  obtain ⟨fields, hsettings, -, htimeless, -⟩ := hmirrors.settings
  refine ⟨rfl, hcounts, ?_, ⟨time', hpaths.load⟩, fields, hsettings.load, htimeless⟩
  rw [packages, perform_bind_ok hpackages.load]
  rfl

def bareHome : Files := ⟨[(["w"], .directory)], ["w"], ["w"], false⟩

def manyCalls : List Call :=
  [.addPackage "2" (.obj [("name", .str "p"), ("path", .str "a")]),
    .addPackage "3" (.obj [("name", .str "q"), ("version", .int 2), ("path", .str "/b/../c")]),
    .addSourcePath "4" (.str "a"), .addSourcePath "5" (.str "/w/./a"), .addSourcePath "6" (.str "b"),
    .updateSettings "7" [("debugMode", .bool true), ("depth", .int 3)], .reopen "8",
    .updateSettings "9" [("depth", .arr [.int 4]), ("lastUpdated", .null)], .addPackagePath "10" (.str "lib"),
    .setOutputPath "11" (.str "b"), .setOutputPath "12" (.str "..")]

/-- The store is opened in a directory that is not there yet, and once more among calls of all kinds: two
packages are added, one path twice in other words, and settings are changed that were changed before. -/
theorem history_answers_bare_home :
    let s : Store := ⟨⟨"", ["c"]⟩⟩
    let kept : Json.Fields := [("version", .str "1.0.0"), ("autoCorrectPaths", .bool true),
      ("autoCompile", .bool false), ("targetLanguage", .str "python"), ("debugMode", .bool true),
      ("encoding", .str "utf-8"), ("depth", .arr [.int 4])]
    ∃ opened fs fields, (openAt "1" (.str "c")).perform bareHome = (.ok s, opened) ∧
      (runAll (.str "c") s manyCalls).perform opened = (.ok s, fs) ∧
      s.packages.perform fs = (.ok (.arr [.obj [("name", .str "p"), ("version", .str "1.0.0"),
          ("path", .str "/w/a"), ("main", .str "index.prisma"), ("addedAt", .str "2")],
        .obj [("name", .str "q"), ("version", .int 2), ("path", .str "/c"), ("main", .str "index.prisma"),
          ("addedAt", .str "3")]]), fs) ∧
      (∃ time, s.paths.perform fs = (.ok (fresh time [("sourcePaths", texts ["/w/a", "/w/b"]),
        ("packagePaths", texts ["/w/opn.import", "/w/.opn/packages", "/w/lib"]), ("outputPath", .str "/")]), fs)) ∧
      s.settings.perform fs = (.ok (.obj fields), fs) ∧ timeless fields = kept := by
  intro s kept
  have hunused : s.Unused bareHome := by
    unfold Unused
    decide +kernel
  have hexact : ∀ c ∈ manyCalls, c.Exact := by
    have hfirst : (Json.obj [("name", .str "p"), ("path", .str "a")]).Exact :=
      .obj (by decide) rfl (forall_mem_cons.2 ⟨.str _, forall_mem_singleton.2 (.str _)⟩)
    have hsecond : (Json.obj [("name", .str "q"), ("version", .int 2), ("path", .str "/b/../c")]).Exact :=
      .obj (by decide) rfl (forall_mem_cons.2 ⟨.str _, forall_mem_cons.2 ⟨.int _, forall_mem_singleton.2 (.str _)⟩⟩)
    simp only [manyCalls, forall_mem_cons, Call.Exact]
    exact ⟨hfirst, hsecond, trivial, trivial, trivial, ⟨⟨rfl, .bool _⟩, ⟨rfl, .int _⟩, forall_mem_nil _⟩, trivial,
      ⟨⟨rfl, .arr (forall_mem_singleton.2 (.int _))⟩, ⟨rfl, .null⟩, forall_mem_nil _⟩, trivial, trivial, trivial,
      forall_mem_nil _⟩
  obtain ⟨s', opened, hopen, hcwd, hadrift, hthere⟩ := exists_run_eq_ok
    (P := fun fs : Files => fs.cwd = bareHome.cwd ∧ fs.adrift = bareHome.adrift ∧ fs.isDirectory "c" = true)
    (r := (openAt "1" (.str "c")).perform bareHome) (by decide +kernel)
  obtain ⟨hdirectory, -⟩ := openAt_eq_ok hopen
  obtain rfl : s = s' := congrArg Store.mk (Except.ok.inj hdirectory)
  have hfits : ∀ c ∈ manyCalls, c.fits bareHome = true := by decide +kernel
  obtain ⟨fs, hcalls⟩ := (mirrors_of_openAt hunused hopen).exists_run hexact
    (fun c hc => (c.fits_congr hcwd hadrift).trans (hfits c hc)) hdirectory hthere
  obtain ⟨-, -, hpackages, hpaths, fields, hsettings, htimeless⟩ := history_answers hopen hunused hexact hcalls
  have hsource : (manyCalls.filterMap (Call.sourcePath? bareHome.cwd)).eraseDups = ["/w/a", "/w/b"] := by
    decide +kernel
  have hpackage : (defaultPackagePaths bareHome ++ manyCalls.filterMap (Call.packagePath? bareHome.cwd)).eraseDups =
      ["/w/opn.import", "/w/.opn/packages", "/w/lib"] := by decide +kernel
  have houtput : (manyCalls.filterMap (Call.outputPath? bareHome.cwd)).getLastD
      ((Path.mk "/" bareHome.cwd).child "opn_build").toString = "/" := by decide +kernel
  rw [hsource, hpackage, houtput] at hpaths
  have hkept : overlay (("version", .str "1.0.0") :: freshSettings) (timeless (manyCalls.flatMap Call.updates)) =
      kept := rfl
  refine ⟨opened, fs, fields, hopen, hcalls, hpackages.trans ?_, hpaths, hsettings, htimeless.trans hkept⟩
  rfl

end ScriptWorkbench.Settings.Store
