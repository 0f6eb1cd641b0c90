/-
Looking for a package that was added.

A package is put behind those that are there, and a name is looked for from the front
(`findPackage_of_added`). A project that is built again is added again, so its new version is not found.
-/
import ScriptWorkbench.Proofs.PackageIndex
import ScriptWorkbench.Proofs.StoreChanges
import ScriptWorkbench.Proofs.StoreHistory

namespace ScriptWorkbench

open ScriptWorkbench.Action List

namespace Settings.Store

/-- A package has a name. -/
def isNamed (name : String) (p : Json) : Bool := (p.field? "name").any (·.same (.str name))

variable {s : Store} {start fs fs' : Files} {m : Memory} {now name : String} {p : Json} {l : List Json}

/-! ## Looking -/

/-- Looking goes from the front. -/
theorem firstNamed_eq (h : ∀ p ∈ l, (p.field? "name").isSome = true) :
    firstNamed (.str name) l = .ok ((l.find? (isNamed name)).getD .null) := by
  induction l with
  | nil => rfl
  | cons p l ih =>
    obtain ⟨hp, hl⟩ := forall_mem_cons.1 h
    obtain ⟨v, hv⟩ := Option.isSome_iff_exists.1 hp
    have hmember : p.member "name" = .ok v := by
      cases p with
      | obj fields => rw [Json.member, show fields.lookup (.whole "name") = some v from hv]
      | _ => cases hv
    have hnamed : isNamed name p = v.same (.str name) := by rw [isNamed, hv]; rfl
    have hstep : firstNamed (.str name) (p :: l) =
        if v.same (.str name) = true then .ok p else firstNamed (.str name) l := by
      rw [firstNamed, hmember]
      rfl
    rw [hstep, find?_cons, hnamed, ih hl]
    cases v.same (.str name) <;> rfl

theorem Mirrors.findPackage (h : Mirrors s start m fs)
    (hnamed : ∀ p ∈ m.packages, (p.field? "name").isSome = true) :
    (s.findPackage (.str name)).perform fs = (.ok ((m.packages.find? (isNamed name)).getD .null), fs) := by
  obtain ⟨time, hheld⟩ := h.packages
  have hpackages : s.packages.perform fs = (.ok (.arr m.packages), fs) := by
    rw [Store.packages, perform_bind_ok hheld.load]
    rfl
  have helements : (shaped (Json.arr m.packages).elements).perform fs = (.ok m.packages, fs) := rfl
  rw [Store.findPackage, perform_bind_ok hpackages, perform_bind_ok helements, firstNamed_eq hnamed]
  rfl

theorem Mirrors.findPackage_last (h : Mirrors s start { m with packages := m.packages ++ [p] } fs)
    (hnamed : ∀ p ∈ m.packages, (p.field? "name").isSome = true) (hp : p.field? "name" = some (.str name)) :
    (s.findPackage (.str name)).perform fs = (.ok ((m.packages.find? (isNamed name)).getD p), fs) := by
  have hself : isNamed name p = true := by
    rw [isNamed, hp]
    exact beq_self_eq_true name
  rw [h.findPackage (forall_mem_append.2 ⟨hnamed, forall_mem_singleton.2 (by rw [hp]; rfl)⟩)]
  rw [find?_append, find?_cons_of_pos hself]
  cases m.packages.find? (isNamed name) <;> rfl

theorem field?_of_package? {here : List String} {info : Json}
    (h : Call.package? here (.addPackage now info) = some p) :
    p.field? "name" = some ((info.field? "name").getD .null) := by
  cases info with
  | obj fields =>
    obtain ⟨path, -, rfl⟩ := Option.map_eq_some_iff.1 h
    rfl
  | _ => cases h

theorem isSome_of_package? {here : List String} {call : Call} (h : call.package? here = some p) :
    (p.field? "name").isSome = true := by
  cases call with
  | addPackage now info => rw [field?_of_package? h]; rfl
  | _ => cases h

/-- A call that fails leaves the files, as nothing that it could write is torn. -/
theorem Mirrors.eq_of_failed {c : Change} {e : Failure} (h : Mirrors s start m fs) (hgiven : c.given.Exact)
    (hrun : (c.run s now).perform fs = (.error e, fs')) : fs' = fs := by
  obtain hsame | ⟨_, _, hr, -⟩ | ⟨⟨v, rfl | hv, hhalves⟩, -⟩ := confined_run c _ _ hrun
  · exact hsame
  · cases hr
  · exact absurd hgiven.halves_eq_nil hhalves
  · obtain ⟨w, hw, hexact⟩ : ∃ w, Contains fs (c.file s) w ∧ w.Exact := by
      cases c with
      | addPackage =>
        obtain ⟨time, hheld⟩ := h.packages
        exact ⟨_, hheld, exact_fresh time (by simp) rfl (forall_mem_singleton.2 (.arr h.exact))⟩
      | addSourcePath | addPackagePath | setOutputPath =>
        obtain ⟨time, hheld⟩ := h.paths
        exact ⟨_, hheld, exact_pathFields time m⟩
      | updateSettings =>
        obtain ⟨fields, hheld, hfields, -⟩ := h.settings
        exact ⟨_, hheld, hfields⟩
    obtain rfl : v = w := Except.ok.inj (congrArg Prod.fst (hv.load.symm.trans hw.load))
    exact absurd hexact.halves_eq_nil hhalves

theorem Mirrors.writeText {path text : String} (h : Mirrors s start m fs)
    (hwrite : fs.writeText path text = .ok fs')
    (hapart : ∀ file ∈ [s.packagesFile, s.pathsFile, s.settingsFile], Path.Apart file path) :
    Mirrors s start m fs' := by
  have hput := Files.writeText_eq_put hwrite
  obtain ⟨place, names, -, -, -, hfs⟩ := hput
  refine h.mono ?_ (by rw [hfs, Files.put_cwd]) (by rw [hfs, Files.put_home])
  rintro file hfile v ⟨text, hread, hvalue⟩
  exact ⟨text, Files.readText_writeText_of_apart hread hwrite (hapart file hfile), hvalue⟩

end Settings.Store

/-! ## Builds -/

namespace Package

open Settings.Store

variable {s : Settings.Store} {start : Files} {m : Memory} {now : String} {output : Path}

theorem spares_mirrors {name : String} {w : List Char} (hw : Path.NameEnd w) (hname : w <:+ name.toList)
    (hpackages : ¬"packages.json".toList <:+ w ∧ ¬w <:+ "packages.json".toList)
    (hpaths : ¬"paths.json".toList <:+ w ∧ ¬w <:+ "paths.json".toList)
    (hsettings : ¬"settings.json".toList <:+ w ∧ ¬w <:+ "settings.json".toList) (output : Path) :
    Spares (Mirrors s start m) (output.child name) := by
  intro fs fs' text hwrite h
  refine h.writeText hwrite ?_
  simp only [forall_mem_cons]
  have hend (file : String) := suffix_refl file.toList
  exact ⟨Path.apart_child nameEnd_packages hw (hend _) hname hpackages.1 hpackages.2 _ output,
    Path.apart_child nameEnd_paths hw (hend _) hname hpaths.1 hpaths.2 _ output,
    Path.apart_child nameEnd_settings hw (hend _) hname hsettings.1 hsettings.2 _ output,
    forall_mem_nil _⟩

theorem leaves_compileTo (now : String) (output : Path) (given : Json) :
    Leaves (fun site : Site => Mirrors s start m site.files) (compileTo now output given) := by
  have hmaking : Leaves (fun site : Site => Mirrors s start m site.files)
      (withFiles (Settings.onFiles (Files.making output))) := by
    intro site h
    rw [withFiles, perform_within, Settings.onFiles, perform_within, perform_making]
    exact h.grows (Files.ensureDirectories_grows site.files output)
  have hdiscover : Leaves (fun site : Site => Mirrors s start m site.files) (discover .null) := by
    intro site h
    rwa [discover_eq]
  have hjoin : Leaves (fun site : Site => Mirrors s start m site.files) joinSources := fun _ h => h
  have hlist : Leaves (fun site : Site => Mirrors s start m site.files) listFunctions := fun _ h => h
  have hindex : Spares (Mirrors s start m) (output.child indexName) :=
    spares_mirrors ⟨by decide, 'a', by decide⟩ (suffix_refl _) (by decide) (by decide) (by decide) _
  refine hmaking.bind fun _ => hdiscover.bind fun _ => hjoin.bind fun _ => hlist.bind fun _ =>
    (leaves_get.bind fun _ => (leaves_produce hindex _).bind fun _ => leaves_pure _).bind fun _ => ?_
  exact leaves_furtherFiles now given
    (spares_mirrors ⟨by decide, 'f', by decide⟩ (suffix_refl _) (by decide) (by decide) (by decide) _)
    fun name hname => spares_mirrors ⟨by decide, 'o', by decide⟩ hname (by decide) (by decide) (by decide) _

theorem leaves_compileProject (now : String) (project output : Path) (given : Json) :
    Leaves (fun site : Site => Mirrors s start m site.files) (compileProject now project output given) := by
  intro site h
  have hbuilt := leaves_compileTo now output given { site with build := .ofProject project } h
  rw [compileProject, perform_bind_ok (perform_get site)]
  cases hrun : (compileTo now output given).perform { site with build := .ofProject project } with
  | mk r after =>
    rw [hrun] at hbuilt
    cases r <;> exact hbuilt

/-- The name under which a build adds its package. -/
def builtName (fs : Files) (source : Path) (given : Option String) : String :=
  given.getD (if fs.find? source.toString == some .directory then source.name else source.stem)

def builtInfo (source : Path) (name : String) (version : Json) : Json.Fields :=
  [("name", .str name), ("version", version),
    ("path", .str (source.parent.child (name ++ "_build")).toString), ("main", .str indexName)]

/-- The package that a build adds. -/
def builtPackage (here : List String) (now : String) (source : Path) (name : String) (version : Json) : Json :=
  packageOf now ((Path.ofString (source.parent.child (name ++ "_build")).toString).resolve here).toString
    (builtInfo source name version)

variable {site site' : Site} {source : Path} {version result : Json}

theorem exact_builtInfo (source : Path) (name : String) (h : version.Exact) :
    (Json.obj (builtInfo source name version)).Exact := by
  refine .obj (by simp [builtInfo]) rfl ?_
  simp only [builtInfo, forall_mem_cons]
  exact ⟨.str _, h, .str _, .str _, forall_mem_nil _⟩

theorem buildBeside_named {given : Option String}
    (h : (buildBeside now source (given.elim .null .str) version).perform site = (.ok result, site')) :
    (buildBeside now source (.str (builtName site.files source given)) version).perform site =
      (.ok result, site') := by
  cases given with
  | some name => exact h
  | none =>
    rw [Option.elim, buildBeside, perform_bind_ok (perform_get site)] at h
    obtain ⟨entry, site₁, hlooked, hrest⟩ := perform_bind_eq_ok h
    obtain ⟨hlook, rfl⟩ := perform_ofExcept_eq_ok hlooked
    rw [builtName, Option.getD, Files.find?, hlook]
    exact hrest

/-- **A build beside a project** puts the package behind the others. -/
theorem mirrors_buildBeside {given : Option String} (h : Mirrors s start m site.files)
    (hdirectory : directoryOf start .null = .ok s.directory) (hversion : version.Exact)
    (hrun : (buildBeside now source (given.elim .null .str) version).perform site = (.ok result, site')) :
    Mirrors s start { m with packages := m.packages ++
      [builtPackage start.cwd now source (builtName site.files source given) version] } site'.files := by
  obtain ⟨_, _, hname, hrun⟩ := perform_bind_eq_ok (buildBeside_named hrun)
  cases hname
  obtain ⟨_, _, hcompiled, hrun⟩ := perform_bind_eq_ok hrun
  have hbuilt := (leaves_compileProject _ _ _ _).after h hcompiled
  obtain ⟨_, _, hopened, hrun⟩ := perform_bind_eq_ok hrun
  obtain ⟨_, hopen, rfl⟩ := perform_within_eq_ok hopened
  obtain ⟨rfl, hagain⟩ := hbuilt.reopen hdirectory hopen
  obtain ⟨p, _, hadded, hreturn⟩ := perform_bind_eq_ok hrun
  obtain ⟨_, hadd, rfl⟩ := perform_within_eq_ok hadded
  cases hreturn
  obtain ⟨hp, hafter⟩ := hagain.addPackage (exact_builtInfo source _ hversion) hadd
  cases hp
  exact hafter

/-- **A build beside a project succeeds** once the project is compiled. -/
theorem exists_buildBeside {name : String} {built : Site} (h : Mirrors s start m site.files)
    (hdirectory : directoryOf start .null = .ok s.directory) (hversion : version.Exact)
    (hcompiled : (compileProject now source (source.parent.child (name ++ "_build")) (maker (.str name) version
      (.str ("Auto-compiled package: " ++ name)) (.str "OPN Build System"))).perform site = (.ok result, built))
    (hthere : built.files.isDirectory s.directory.toString = true)
    (hfits : (Call.addPackage now (.obj (builtInfo source name version))).fits built.files = true) :
    ∃ site', (buildBeside now source (.str name) version).perform site = (.ok result, site') := by
  have hbuilt := (leaves_compileProject _ _ _ _).after h hcompiled
  obtain ⟨p, fs', hadd, -⟩ := hbuilt.exists_addPackage now (exact_builtInfo source name hversion) hfits
  have hopened : (withFiles (openAt now .null)).perform built = (.ok s, built) := by
    rw [withFiles, perform_within, hbuilt.exists_reopen now hdirectory hthere]
    rfl
  have hadded : (withFiles (s.addPackage now (.obj (builtInfo source name version)))).perform built =
      (.ok p, { built with files := fs' }) := by
    rw [withFiles, perform_within, hadd]
    rfl
  refine ⟨{ built with files := fs' }, (perform_bind_ok hcompiled _).trans ?_⟩
  rw [perform_bind_ok hopened]
  exact perform_bind_ok hadded _

end Package

/-! ## What is found -/

namespace Settings.Store

open Package

/-- **The files that can come about:** a store is opened where none of its files was, and is changed or
opened again, and projects are built if it is the one in the home directory. Changes can fail, and anything
else can happen that leaves the three files. The packages that are added are listed, in order. -/
inductive Reached (start : Files) (directory : Json) (s : Store) : List Json → Files → Prop
  | opened {now : String} {fs : Files} (hunused : s.Unused start)
    (hopen : (openAt now directory).perform start = (.ok s, fs)) : Reached start directory s [] fs
  | call {call : Call} {l : List Json} {fs fs' : Files} (h : Reached start directory s l fs)
    (hexact : call.Exact) (hrun : (call.run directory s).perform fs = (.ok s, fs')) :
    Reached start directory s (l ++ (call.package? start.cwd).toList) fs'
  | built {now : String} {source : Path} {given : Option String} {version result : Json} {l : List Json}
    {site site' : Site} (h : Reached start directory s l site.files) (hhome : directory = .null)
    (hexact : version.Exact)
    (hrun : (buildBeside now source (given.elim .null .str) version).perform site = (.ok result, site')) :
    Reached start directory s
      (l ++ [builtPackage start.cwd now source (builtName site.files source given) version]) site'.files
  | failed {now : String} {c : Change} {e : Failure} {l : List Json} {fs fs' : Files}
    (h : Reached start directory s l fs) (hexact : c.given.Exact)
    (hrun : (c.run s now).perform fs = (.error e, fs')) : Reached start directory s l fs'
  | elsewhere {l : List Json} {fs fs' : Files} (h : Reached start directory s l fs)
    (hkept : ∀ file ∈ [s.packagesFile, s.pathsFile, s.settingsFile], fs'.readText file = fs.readText file)
    (hcwd : fs'.cwd = fs.cwd) (hhome : fs'.home = fs.home) : Reached start directory s l fs'

variable {s : Store} {start fs : Files} {directory : Json} {l : List Json}

theorem Reached.directoryOf (h : Reached start directory s l fs) :
    Store.directoryOf start directory = .ok s.directory := by
  induction h with
  | opened _ hopen => exact (openAt_eq_ok hopen).1
  | call _ _ _ ih | built _ _ _ _ ih | failed _ _ _ ih | elsewhere _ _ _ _ ih => exact ih

theorem Reached.mirrors (h : Reached start directory s l fs) :
    (∀ p ∈ l, (p.field? "name").isSome = true) ∧ ∃ m : Memory, m.packages = l ∧ Mirrors s start m fs := by
  induction h with
  | opened hunused hopen => exact ⟨forall_mem_nil _, _, rfl, mirrors_of_openAt hunused hopen⟩
  | call h hexact hrun ih =>
    obtain ⟨hnamed, m, rfl, hmirrors⟩ := ih
    refine ⟨forall_mem_append.2 ⟨hnamed, ?_⟩, _, rfl, (hmirrors.step hexact h.directoryOf hrun).2.2⟩
    intro p hp
    exact isSome_of_package? (Option.mem_toList.1 hp)
  | built h hhome hexact hrun ih =>
    obtain ⟨hnamed, m, rfl, hmirrors⟩ := ih
    subst hhome
    exact ⟨forall_mem_append.2 ⟨hnamed, forall_mem_singleton.2 rfl⟩, _, rfl,
      mirrors_buildBeside hmirrors h.directoryOf hexact hrun⟩
  | failed _ hexact hrun ih =>
    obtain ⟨hnamed, m, hm, hmirrors⟩ := ih
    exact ⟨hnamed, m, hm, hmirrors.eq_of_failed hexact hrun ▸ hmirrors⟩
  | elsewhere _ hkept hcwd hhome ih =>
    obtain ⟨hnamed, m, hm, hmirrors⟩ := ih
    refine ⟨hnamed, m, hm, hmirrors.mono ?_ hcwd hhome⟩
    rintro file hfile v ⟨text, hread, hvalue⟩
    exact ⟨text, (hkept file hfile).trans hread, hvalue⟩

/-- **What is found under the name of a package that has just been added.** It is the first one of that name
among all packages that were added before, and only if there is none it is the new one; likewise if a build
beside a project adds it, under the name that is given or under that of the project. -/
theorem findPackage_of_added (h : Reached start directory s l fs) :
    (∀ now name info p fs', info.Exact → info.field? "name" = some (.str name) →
      (s.addPackage now info).perform fs = (.ok p, fs') →
      (s.findPackage (.str name)).perform fs' = (.ok ((l.find? (isNamed name)).getD p), fs')) ∧
    ∀ now source given version site result site', directory = .null → site.files = fs → version.Exact →
      (buildBeside now source (given.elim .null .str) version).perform site = (.ok result, site') →
      let name := builtName fs source given
      (s.findPackage (.str name)).perform site'.files = (.ok ((l.find? (isNamed name)).getD
        (builtPackage start.cwd now source name version)), site'.files) := by
  obtain ⟨hnamed, m, rfl, hmirrors⟩ := h.mirrors
  constructor
  · intro now name info p fs' hinfo hname hrun
    obtain ⟨hp, hafter⟩ := hmirrors.addPackage hinfo hrun
    exact hafter.findPackage_last hnamed (by rw [field?_of_package? hp, hname]; rfl)
  · rintro now source given version site result site' rfl rfl hversion hrun name
    exact (mirrors_buildBeside hmirrors h.directoryOf hversion hrun).findPackage_last hnamed rfl

/-- A home with a project of one file in it. -/
def projectHome : Files :=
  { bareHome with entries := bareHome.entries ++
      [(["w", "p"], .directory), (["w", "p", "a.opn"], .file (.text "main \x7b\x7d"))] }

def homeStore : Store := ⟨homeDirectory projectHome⟩

def openedHome : Files := ((openAt "1" .null).perform projectHome).2

theorem openAt_projectHome : (openAt "1" .null).perform projectHome = (.ok homeStore, openedHome) :=
  Prod.ext (eq_ok_of_toOption (by decide +kernel)) rfl

theorem unused_homeStore : homeStore.Unused projectHome := by
  unfold Unused
  decide +kernel

def shortInfo (name version : String) : Json.Fields :=
  [("name", .str name), ("version", .str version), ("path", .str "/a")]

theorem exact_shortInfo (name version : String) : (Json.obj (shortInfo name version)).Exact := by
  refine .obj (by simp [shortInfo]) rfl ?_
  simp only [shortInfo, List.forall_mem_cons]
  exact ⟨.str _, .str _, .str _, List.forall_mem_nil _⟩

/-- **A package can be added** to the store in this home, whatever it has been told. -/
theorem exists_added {m : Memory} (h : Mirrors homeStore projectHome m fs) (now name version : String) :
    ∃ fs', (homeStore.addPackage now (.obj (shortInfo name version))).perform fs =
        (.ok (packageOf now "/a" (shortInfo name version)), fs') ∧
      Mirrors homeStore projectHome { m with packages := m.packages ++ [packageOf now "/a" (shortInfo name version)] }
        fs' := by
  obtain ⟨p, fs', hadd, -⟩ := h.exists_addPackage now (exact_shortInfo name version) rfl
  obtain ⟨hp, hmirrors⟩ := h.addPackage (exact_shortInfo name version) hadd
  obtain rfl := Option.some.inj hp
  exact ⟨fs', hadd, hmirrors⟩

theorem reached_added {now name version : String} {p : Json} {fs' : Files}
    (h : Reached projectHome .null homeStore l fs)
    (hadd : (homeStore.addPackage now (.obj (shortInfo name version))).perform fs = (.ok p, fs')) :
    Reached projectHome .null homeStore (l ++ [packageOf now "/a" (shortInfo name version)]) fs' := by
  have hexact : (Call.addPackage now (.obj (shortInfo name version))).Exact := exact_shortInfo name version
  exact .call h hexact (perform_bind_ok hadd _)

def otherAdded : Files := ((homeStore.addPackage "2" (.obj (shortInfo "q" "1"))).perform openedHome).2

/-- Another package is there when the project is built, and its package is found. -/
theorem findPackage_of_built_second : ∃ result site',
    Reached projectHome .null homeStore [packageOf "2" "/a" (shortInfo "q" "1")] otherAdded ∧
    (buildBeside "3" ⟨"", ["p"]⟩ (.str "p") (.str "1")).perform ⟨otherAdded, "", .ofProject ⟨"", []⟩⟩ =
      (.ok result, site') ∧
    (homeStore.findPackage (.str "p")).perform site'.files =
      (.ok (builtPackage ["w"] "3" ⟨"", ["p"]⟩ "p" (.str "1")), site'.files) := by
  obtain ⟨fs, hadd, hmirrors⟩ := exists_added (mirrors_of_openAt unused_homeStore openAt_projectHome) "2" "q" "1"
  obtain rfl : otherAdded = fs := congrArg Prod.snd hadd
  have hreached := reached_added (.opened unused_homeStore openAt_projectHome) hadd
  obtain ⟨result, built, hcompiled, hthere, hfits⟩ := exists_run_eq_ok
    (P := fun site : Site => site.files.isDirectory homeStore.directory.toString = true ∧
      (Call.addPackage "3" (.obj (builtInfo ⟨"", ["p"]⟩ "p" (.str "1")))).fits site.files = true)
    (r := (compileProject "3" ⟨"", ["p"]⟩ ((Path.parent ⟨"", ["p"]⟩).child ("p" ++ "_build"))
      (maker (.str "p") (.str "1") (.str ("Auto-compiled package: " ++ "p")) (.str "OPN Build System"))).perform
        ⟨otherAdded, "", .ofProject ⟨"", []⟩⟩)
    (by decide +kernel)
  obtain ⟨site', hrun⟩ := exists_buildBeside hmirrors rfl (.str _) hcompiled hthere hfits
  exact ⟨result, site', hreached, hrun, (findPackage_of_added hreached).2 "3" ⟨"", ["p"]⟩ (some "p") (.str "1") _
    result site' rfl rfl (.str _) hrun⟩

/-- A package is added a second time with another version, and the old version is found. -/
theorem added_again_not_found :
    ∃ p p' fs fs', Reached projectHome .null homeStore [p] fs ∧
      (homeStore.addPackage "3" (.obj (shortInfo "p" "2"))).perform fs = (.ok p', fs') ∧
      (homeStore.findPackage (.str "p")).perform fs' = (.ok p, fs') ∧ p ≠ p' := by
  obtain ⟨fs, hfirst, hmirrors⟩ := exists_added (mirrors_of_openAt unused_homeStore openAt_projectHome) "2" "p" "1"
  obtain ⟨fs', hsecond, hafter⟩ := exists_added hmirrors "3" "p" "2"
  refine ⟨_, _, fs, fs', reached_added (.opened unused_homeStore openAt_projectHome) hfirst, hsecond,
    hafter.findPackage_last (List.forall_mem_singleton.2 rfl) rfl, ?_⟩
  intro hsame
  have hversion := Json.str.inj (Option.some.inj (congrArg (Json.field? "version") hsame))
  exact absurd hversion (by decide)

end Settings.Store

end ScriptWorkbench
