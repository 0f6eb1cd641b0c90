/-
Building a package again.

A build that returns makes directories, reads the source files and writes three files (`compileTo_eq_ok_iff`).
What it reads and writes does not depend on the order in which the entries of directories are enumerated
(`builds_reproducible`). A second build finds the files of the first. The index is never a source file, nor is
the list of functions, but the description of the package has the end of one: **a second build changes nothing
exactly if the description is not found among the source files, or was found before with the same text**
(`compileTo_again_iff`).
-/
import ScriptWorkbench.Proofs.SourceSearch

namespace ScriptWorkbench

open List

namespace Package

open ScriptWorkbench.Action

variable {now name : String} {output project p : Path} {given r : Json} {fs made after : Files}
  {site built : Site}

/-! ## The steps of a build that returns -/

def piecesOf (fs : Files) (q : Path) : List String := (sourcePieces fs q).toOption.getD []

def gathered (fs : Files) (project : Path) : Build :=
  let sources := sourcesOf fs project
  let code := (consolidate fs sources).1
  ⟨project, sources, code, documentedSignatures code⟩

theorem consolidate_code (fs : Files) (sources : List Path) :
    (consolidate fs sources).1 = "\n".intercalate (sources.flatMap (piecesOf fs)) := by
  rw [consolidate, flatMap_map]
  rfl

/-- The three files of a package are written one after the other. -/
structure Writes (now : String) (output : Path) (given : Json) (name : String) (b : Build)
    (fs after : Files) : Prop where
  named : descriptionName given = .ok name
  written : ∃ indexed listed described,
    fs.writeText (output.child indexName).toString (indexText now b) = .ok indexed ∧
    (Settings.Store.save (output.child "functions.json").toString (functionsDocument now b)).perform indexed =
      (.ok (), listed) ∧
    description given b.functions = .ok described ∧
    (Settings.Store.save (output.child name).toString described).perform listed = (.ok (), after)

theorem perform_withFiles_eq_ok {α : Type} {a : Settings.Run α} {x : α}
    (h : (withFiles a).perform site = (.ok x, built)) :
    ∃ fs, a.perform site.files = (.ok x, fs) ∧ built = { site with files := fs } :=
  perform_within_eq_ok h

theorem shaped_eq_ok {α : Type} {a : Except Json.AccessError α} {x : α}
    (h : (shaped a).perform site = (.ok x, built)) : a = .ok x ∧ built = site := by
  obtain ⟨fs, hrun, rfl⟩ := perform_withFiles_eq_ok h
  obtain ⟨ha, rfl⟩ := perform_ofExcept_eq_ok hrun
  exact ⟨ha, rfl⟩

theorem writeIndex_eq_ok {path : Path} {text : String}
    (h : (writeIndex now path).perform site = (.ok text, built)) :
    ∃ fs, site.files.writeText path.toString (indexText now site.build) = .ok fs ∧
      built = { site with files := fs } := by
  obtain ⟨_, _, hget, h⟩ := perform_bind_eq_ok h
  cases hget
  obtain ⟨_, _, hproduce, hreturn⟩ := perform_bind_eq_ok h
  cases hreturn
  obtain ⟨fs, hwrite, rfl⟩ := perform_withFiles_eq_ok hproduce
  have hwrite := Settings.Store.perform_onFiles_eq_ok hwrite
  refine ⟨fs, ?_, rfl⟩
  cases hwritten : site.files.writeText path.toString (indexText now site.build) with
  | error e => rw [perform_writing_error hwritten] at hwrite; cases hwrite
  | ok fs' => rw [perform_writing_ok hwritten] at hwrite; cases hwrite; rfl

theorem perform_record {path : Path} {v : Json}
    (h : (Settings.Store.save path.toString v).perform site.files = (.ok (), fs)) :
    (record path v).perform site = (.ok (), { site with files := fs }) := by
  rw [record, withFiles, perform_within, h]
  rfl

theorem perform_gathering (hfound : (candidates site.files site.build.project sourceSuffixes).failure = none) :
    ∃ printed, ∀ rest : Making Json,
      (do let _ ← discover .null; let _ ← joinSources; let _ ← listFunctions; rest).perform site =
        rest.perform ⟨site.files, printed, gathered site.files site.build.project⟩ := by
  let found : Site := { site with build := { site.build with
    sources := sourcesOf site.files site.build.project } }
  let joined : Site := { found with
    printed := found.printed ++ (consolidate found.files found.build.sources).2
    build := { found.build with code := (consolidate found.files found.build.sources).1 } }
  have hdiscover : (discover .null).perform site = (.ok found.build.sources, found) :=
    perform_discover hfound
  have hjoin : joinSources.perform found = (.ok joined.build.code, joined) := rfl
  have hlist : listFunctions.perform joined = (.ok (documentedSignatures joined.build.code),
      ⟨site.files, joined.printed, gathered site.files site.build.project⟩) := rfl
  refine ⟨joined.printed, fun rest => ?_⟩
  rw [perform_bind_ok hdiscover, perform_bind_ok hjoin, perform_bind_ok hlist]

def writeAll (now : String) (output : Path) (given : Json) : Making Json := do
  let _ ← writeIndex now (output.child indexName)
  let _ ← writeFunctions now (output.child "functions.json")
  let _ ← writeDescription (output.child (← shaped (descriptionName given))) given
  return report now output (← get).build

theorem writeAll_eq_ok (h : (writeAll now output given).perform site = (.ok r, built)) :
    ∃ name, Writes now output given name site.build site.files built.files ∧
      r = report now output site.build ∧ built.build = site.build := by
  obtain ⟨_, _, hindex, h⟩ := perform_bind_eq_ok h
  obtain ⟨indexed, hindexed, rfl⟩ := writeIndex_eq_ok hindex
  obtain ⟨_, _, hfunctions, h⟩ := perform_bind_eq_ok h
  obtain ⟨_, _, hget, hfunctions⟩ := perform_bind_eq_ok hfunctions
  cases hget
  obtain ⟨_, _, hrecord, hreturn⟩ := perform_bind_eq_ok hfunctions
  cases hreturn
  obtain ⟨listed, hlisted, rfl⟩ := perform_withFiles_eq_ok hrecord
  obtain ⟨name, _, hshape, h⟩ := perform_bind_eq_ok h
  obtain ⟨hname, rfl⟩ := shaped_eq_ok hshape
  obtain ⟨described, _, hdescription, h⟩ := perform_bind_eq_ok h
  obtain ⟨_, _, hget, hdescription⟩ := perform_bind_eq_ok hdescription
  cases hget
  obtain ⟨_, _, hshape, hdescription⟩ := perform_bind_eq_ok hdescription
  obtain ⟨hdescribed, rfl⟩ := shaped_eq_ok hshape
  obtain ⟨_, _, hrecord, hreturn⟩ := perform_bind_eq_ok hdescription
  cases hreturn
  obtain ⟨after, hafter, rfl⟩ := perform_withFiles_eq_ok hrecord
  cases h
  exact ⟨name, ⟨hname, indexed, listed, described, hindexed, hlisted, hdescribed, hafter⟩, rfl, rfl⟩

theorem perform_writeAll (h : Writes now output given name site.build site.files after) :
    (writeAll now output given).perform site =
      (.ok (report now output site.build), { site with files := after }) := by
  obtain ⟨hname, indexed, listed, described, hindex, hlisted, hdescribed, hafter⟩ := h
  have hget (s : Site) : (get : Making Site).perform s = (.ok s, s) := rfl
  have hshaped {α : Type} {a : Except Json.AccessError α} {x : α} (ha : a = .ok x) (s : Site) :
      (shaped a).perform s = (.ok x, s) := by
    rw [ha]
    rfl
  have hfunctions : (writeFunctions now (output.child "functions.json")).perform
      { site with files := indexed } = (.ok (statistics site.build), { site with files := listed }) := by
    rw [writeFunctions, perform_bind_ok (hget _), perform_bind_ok (perform_record hlisted)]
    rfl
  have hdescription : (writeDescription (output.child name) given).perform { site with files := listed } =
      (.ok described, { site with files := after }) := by
    rw [writeDescription, perform_bind_ok (hget _), perform_bind_ok (hshaped hdescribed _),
      perform_bind_ok (perform_record hafter)]
    rfl
  rw [writeAll, perform_bind_ok (perform_writeIndex hindex), perform_bind_ok hfunctions,
    perform_bind_ok (hshaped hname _), perform_bind_ok hdescription]
  rfl

/-- **A build that returns:** the directory of the output is made, the files of the project are found, and
three files are written. -/
theorem compileTo_eq_ok_iff (site : Site) :
    (∃ printed b, (compileTo now output given).perform site = (.ok r, ⟨after, printed, b⟩)) ↔
      ∃ made name, site.files.ensureDirectories output = (.ok (), made) ∧
        (candidates made site.build.project sourceSuffixes).failure = none ∧
        Writes now output given name (gathered made site.build.project) made after ∧
        r = report now output (gathered made site.build.project) := by
  constructor
  · rintro ⟨printed, b, h⟩
    obtain ⟨_, _, hmake, h⟩ := perform_bind_eq_ok h
    obtain ⟨made, hmaking, rfl⟩ := perform_withFiles_eq_ok hmake
    have hmaking := Settings.Store.perform_onFiles_eq_ok hmaking
    rw [perform_making] at hmaking
    cases hfound : (candidates made site.build.project sourceSuffixes).failure with
    | some e =>
      obtain ⟨_, _, hdiscover, -⟩ := perform_bind_eq_ok h
      rw [discover_eq] at hdiscover
      simp only [hfound] at hdiscover
      cases hdiscover
    | none =>
      obtain ⟨printed', hrest⟩ := @perform_gathering { site with files := made } hfound
      obtain ⟨name, hwrites, rfl, -⟩ := writeAll_eq_ok ((hrest _).symm.trans h)
      exact ⟨made, name, hmaking, hfound, hwrites, rfl⟩
  · rintro ⟨made, name, hmaking, hfound, hwrites, rfl⟩
    have hmake : (withFiles (Settings.onFiles (Files.making output))).perform site =
        (.ok (), { site with files := made }) :=
      perform_withFiles (by rw [perform_making, hmaking])
    obtain ⟨printed, hrest⟩ := @perform_gathering { site with files := made } hfound
    exact ⟨printed, _, (perform_bind_ok hmake _).trans ((hrest _).trans (perform_writeAll hwrites))⟩

/-! ## The order of the entries -/

section

variable {fs' : Files} (halike : fs.Alike fs')

include halike

theorem passable_of_alike (h : fs.Passable p) : fs'.Passable p := by
  rw [Files.Passable] at h ⊢
  simpa only [halike.locate, halike.entry] using h

theorem below_of_alike {q : Path} : fs'.Below p q ↔ fs.Below p q := by
  rw [Files.Below, Files.Below]
  simp only [halike.locate, halike.entry]

theorem gathered_of_alike (htree : fs.IsTree) (htree' : fs'.IsTree) (hp : p.Tidy) (hpass : fs.Passable p) :
    gathered fs' p = gathered fs p := by
  have hpass' := passable_of_alike halike hpass
  have hsources : sourcesOf fs' p = sourcesOf fs p := by
    refine sourcesOf_congr htree' htree hp hpass' hpass fun q => ?_
    rw [mem_sourcesOf_iff htree' hp hpass', mem_sourcesOf_iff htree hp hpass, below_of_alike halike]
  have hpieces : sourcePieces fs' = sourcePieces fs := by
    funext q
    rw [sourcePieces, sourcePieces, Files.readText, Files.readText, Files.content, Files.content,
      halike.locate]
  rw [gathered, gathered, hsources, consolidate, consolidate, hpieces]

theorem Writes.of_alike {b : Build} (h : Writes now output given name b fs after) :
    ∃ after', Writes now output given name b fs' after' ∧ after.Alike after' := by
  obtain ⟨hname, indexed, listed, described, hindex, hlisted, hdescribed, hafter⟩ := h
  rw [Settings.Store.perform_save_iff] at hlisted hafter
  have hwrite {fs fs' fs₁ : Files} {path text : String} (halike : fs.Alike fs')
      (h : fs.writeText path text = .ok fs₁) :
      ∃ fs₁', fs'.writeText path text = .ok fs₁' ∧ fs₁.Alike fs₁' := by
    have hresults := halike.writeText path text
    rw [h] at hresults
    exact hresults.ok
  obtain ⟨indexed', hindex', halike⟩ := hwrite halike hindex
  obtain ⟨listed', hlisted', halike⟩ := hwrite halike hlisted.2
  obtain ⟨after', hafter', halike⟩ := hwrite halike hafter.2
  exact ⟨after', ⟨hname, indexed', listed', described, hindex',
    Settings.Store.perform_save_iff.2 ⟨hlisted.1, hlisted'⟩, hdescribed,
    Settings.Store.perform_save_iff.2 ⟨hafter.1, hafter'⟩⟩, halike⟩

theorem compileTo_of_alike (htree : fs.IsTree) (htree' : fs'.IsTree) {b : Build} (hp : b.project.Tidy)
    {printed : String} (h : (compileTo now output given).perform ⟨fs, printed, b⟩ = (.ok r, built)) :
    ∃ built', (compileTo now output given).perform ⟨fs', printed, b⟩ = (.ok r, built') ∧
      built.files.Alike built'.files := by
  obtain ⟨made, name, hmaking, hfound, hwrites, hr⟩ :=
    (compileTo_eq_ok_iff _).1 ⟨built.printed, built.build, h⟩
  obtain ⟨made', hmaking', halike⟩ := halike.ensureDirectories output
  have hmade := htree.ensureDirectories output
  have hmade' := htree'.ensureDirectories output
  rw [hmaking] at hmaking' halike hmade
  rw [hmaking'] at hmade'
  have hpass := (searchable_iff hmade hp).1 hfound
  have hfound' := (searchable_iff hmade' hp).2 (passable_of_alike halike hpass)
  have hsame := gathered_of_alike halike hmade hmade' hp hpass
  obtain ⟨after', hwrites', halike'⟩ := hwrites.of_alike halike
  rw [← hsame] at hwrites' hr
  obtain ⟨printed', b', hbuilt'⟩ := (compileTo_eq_ok_iff ⟨fs', printed, b⟩).2
    ⟨made', name, hmaking', hfound', hwrites', hr⟩
  exact ⟨_, hbuilt', halike'⟩

end

/-- **Builds are reproducible.** Let the entries of a tree be enumerated in two ways. The search for the
source files of a project fails both times, because the path of a directory is too long, or it gives the
same list both times: strictly in the order of the paths, with the entries below the project that are
named as source files. And a build fails both times, or it returns the same report both times and leaves
the same files. -/
theorem builds_reproducible (htree : fs.IsTree) {entries : List (List String × Entry)}
    (horder : fs.entries.Perm entries) (printed : String) {b : Build} (hproject : b.project.Tidy)
    (now : String) (output : Path) (given : Json) :
    let site : Site := ⟨fs, printed, b⟩
    let site' : Site := ⟨{ fs with entries }, printed, b⟩
    ((fs.Passable b.project ∧ ∃ sources,
        ((discover .null).perform site).1 = .ok sources ∧
        ((discover .null).perform site').1 = .ok sources ∧
        sources.Pairwise (fun p q => namesBefore p.components q.components = true ∧ p ≠ q) ∧
        ∀ q, q ∈ sources ↔ fs.Below b.project q ∧ IsSourceName q.name) ∨
      (¬fs.Passable b.project ∧ (∃ e, ((discover .null).perform site).1 = .error e) ∧
        ∃ e, ((discover .null).perform site').1 = .error e)) ∧
    ((∃ r built built', (compileTo now output given).perform site = (.ok r, built) ∧
        (compileTo now output given).perform site' = (.ok r, built') ∧ built.files.Alike built'.files) ∨
      ∃ e e', ((compileTo now output given).perform site).1 = .error e ∧
        ((compileTo now output given).perform site').1 = .error e') := by
  intro site site'
  obtain ⟨halike, htree'⟩ := htree.reorder horder
  refine ⟨?_, ?_⟩
  · have hsearch (s : Site) : ((discover .null).perform s).1 =
        (candidates s.files s.build.project sourceSuffixes).failure.elim
          (.ok (sourcesOf s.files s.build.project)) (.error <| .file ·) := by
      rw [discover_eq]
      cases (candidates s.files s.build.project sourceSuffixes).failure <;> rfl
    rw [hsearch site, hsearch site']
    by_cases hpass : fs.Passable b.project
    · have hsame := gathered_of_alike halike htree htree' hproject hpass
      rw [(searchable_iff htree hproject).2 hpass,
        (searchable_iff htree' hproject).2 (passable_of_alike halike hpass), Option.elim_none,
        Option.elim_none]
      exact .inl ⟨hpass, _, rfl, congrArg (Except.ok ·.sources) hsame,
        sourcesOf_strict htree hproject hpass, fun q => mem_sourcesOf_iff htree hproject hpass⟩
    · have hfails {g : Files} (hg : g.IsTree) (hnot : ¬g.Passable b.project) :
          ∃ e, (candidates g b.project sourceSuffixes).failure = some e :=
        Option.ne_none_iff_exists'.1 (mt (searchable_iff hg hproject).1 hnot)
      obtain ⟨e, he⟩ := hfails htree hpass
      obtain ⟨e', he'⟩ := hfails htree' (mt (passable_of_alike halike.symm) hpass)
      rw [he, he']
      exact .inr ⟨hpass, ⟨_, rfl⟩, ⟨_, rfl⟩⟩
  · cases hbuild : (compileTo now output given).perform site with
    | mk result built =>
      cases result with
      | ok r =>
        obtain ⟨built', hbuild', hfiles⟩ := compileTo_of_alike halike htree htree' hproject hbuild
        exact .inl ⟨r, built, built', rfl, hbuild', hfiles⟩
      | error e =>
        cases hbuild' : (compileTo now output given).perform site' with
        | mk result' built' =>
          cases result' with
          | error e' => exact .inr ⟨e, e', rfl, rfl⟩
          | ok r =>
            -- what returns in one order returns in the other
            obtain ⟨_, hback, -⟩ := compileTo_of_alike halike.symm htree' htree hproject hbuild'
            cases hbuild.symm.trans hback

/-- The entries of the small project in the opposite order. -/
theorem builds_reproducible_reversed :
    ((discover .null).perform ⟨{ smallProject.made with entries := smallProject.made.entries.reverse }, "",
      smallProject.build⟩).1 =
      .ok [⟨"", ["p", "a.opn"]⟩, ⟨"", ["p", "b.prisma"]⟩, ⟨"", ["p", "c.prisma"]⟩] := by
  have htree : smallProject.made.IsTree := ⟨by decide, by decide +kernel, by decide +kernel⟩
  have hproject : smallProject.build.project.Tidy := ⟨by decide, by decide +kernel⟩
  have hfound : (candidates smallProject.made smallProject.build.project sourceSuffixes).failure = none := by
    decide +kernel
  obtain ⟨⟨-, sources, hsources, hreversed, -⟩ | ⟨hnot, -⟩, -⟩ := builds_reproducible htree
    (List.reverse_perm _).symm "" hproject "2024-01-02" ⟨"", ["out"]⟩ .null
  · rw [hreversed, ← hsources, discover_eq]
    rw [hfound, ← smallProject.sources_eq]
  · exact absurd ((searchable_iff htree hproject).1 hfound) hnot

/-! ## The files that a build leaves -/

theorem isSourceName_functions {last : String} (h : "functions.json".toList <:+ last.toList) :
    ¬IsSourceName last := by
  rintro ⟨⟨s, hs, hend⟩, -⟩
  have hends : ∀ s ∈ sourceSuffixes, ¬s.toList <:+ "functions.json".toList ∧
      ¬"functions.json".toList <:+ s.toList := by decide
  exact (suffix_or_suffix_of_suffix hend h).elim (hends s hs).1 (hends s hs).2

theorem getLast_index {text : String} {names : List String} (houtput : output.Tidy)
    (h : fs.Written after (output.child indexName).toString text names) :
    names.getLast? = some indexName := by
  have htidy : (output.child indexName).Tidy := by
    exact houtput.extend (by decide)
  have hsplit : Path.splitNames (output.child indexName).toString = output.names ++ [indexName] := by
    rw [Path.splitNames_toString htidy]
    rfl
  obtain ⟨place, hplace, hnames⟩ := h.place
  obtain ⟨names', hnames', hlast⟩ := Files.locate_last hsplit (by decide) hplace
  cases hnames.symm.trans hnames'
  exact hlast

/-- **What a build leaves:** directories are as before. The index and the description are where their
paths lead, and among the other names only those of no source file may hold something else now. Writing
the three files again changes nothing. -/
theorem Writes.effect {b : Build} (htree : fs.IsTree) (houtput : output.Tidy)
    (h : Writes now output given name b fs after) :
    fs.Keeps after ∧ after.Keeps fs ∧ after.IsTree ∧ Writes now output given name b after after ∧
      (∃ names, after.locate (output.child indexName).toString =
        .ok (.occupied names (.file (.text (indexText now b))))) ∧
      ∃ names c, after.locate (output.child name).toString = .ok (.occupied names (.file c)) ∧
        ∀ others last, others.getLast? = some last → IsSourceName last → others ≠ names →
          after.entry? others = fs.entry? others := by
  obtain ⟨hname, indexed, listed, described, hindex, hlisted, hdescribed, hafter⟩ := h
  rw [Settings.Store.perform_save_iff] at hlisted hafter
  have hindexEnd : Path.NameEnd indexName.toList := ⟨by decide, 'a', by decide⟩
  have hlistEnd : Path.NameEnd "functions.json".toList := ⟨by decide, 'f', by decide⟩
  have hopnEnd : Path.NameEnd ".opn".toList := ⟨by decide, 'o', by decide⟩
  have hopn := descriptionName_suffix hname
  obtain ⟨ni, hi⟩ := htree.written hindex
  obtain ⟨nf, hf⟩ := hi.tree.written hlisted.2
  obtain ⟨nd, hd⟩ := hf.tree.written hafter.2
  have hif : ni ≠ nf := hi.names_ne hf (Path.apart_child hindexEnd hlistEnd (suffix_refl _)
    (suffix_refl _) (by decide) (by decide) _ _)
  have hid : ni ≠ nd := hi.names_ne hd (Path.apart_child hindexEnd hopnEnd (suffix_refl _) hopn
    (by decide) (by decide) _ _)
  have hfd : nf ≠ nd := hf.names_ne hd (Path.apart_child hlistEnd hopnEnd (suffix_refl _) hopn
    (by decide) (by decide) _ _)
  have hlocI := hi.locate (hf.keeps.trans hd.keeps) (by rw [hd.others _ hid, hf.others _ hif, hi.entry])
  have hlocF := hf.locate hd.keeps (by rw [hd.others _ hfd, hf.entry])
  have hlocD := hd.locate ⟨fun _ h => h, rfl, rfl⟩ hd.entry
  refine ⟨hi.keeps.trans (hf.keeps.trans hd.keeps), hd.back.trans (hf.back.trans hi.back), hd.tree,
    ⟨hname, after, after, described, hd.tree.writeText_self hlocI,
      Settings.Store.perform_save_iff.2 ⟨hlisted.1, hd.tree.writeText_self hlocF⟩, hdescribed,
      Settings.Store.perform_save_iff.2 ⟨hafter.1, hd.tree.writeText_self hlocD⟩⟩,
    ⟨ni, hlocI⟩, nd, _, hlocD, ?_⟩
  intro others last hlast hsource hne
  have hneI : others ≠ ni := by
    rintro rfl
    rw [getLast_index houtput hi] at hlast
    cases hlast
    exact hsource.2 rfl
  have hneF : others ≠ nf := by
    rintro rfl
    obtain ⟨place, hplace, hnames⟩ := hf.place
    obtain ⟨_, last', hnames', hlast', hend⟩ := Files.locate_names hlistEnd
      (Path.toString_child_suffix hlistEnd (suffix_refl _) output) hplace
    cases hnames.symm.trans hnames'
    cases hlast.symm.trans hlast'
    exact isSourceName_functions hend hsource
  rw [hd.others _ hne, hf.others _ hneF, hi.others _ hneI]

/-! ## Source files after a build -/

/-- A source file that is the description of the package was one before, with the same text. -/
def Settled (made after : Files) (project description : Path) : Prop :=
  ∀ q ∈ sourcesOf after project, after.reach q.toString = after.reach description.toString →
    q ∈ sourcesOf made project ∧ piecesOf after q = piecesOf made q

theorem passable_of_keeps {there : List String} (hkeep : made.Keeps after) (hback : after.Keeps made)
    (hthere : made.locate p.toString = .ok (.occupied there .directory)) (hpass : made.Passable p) :
    after.Passable p := by
  have hafter := Files.locate_directory_of_keeps hkeep hthere
  refine ⟨fun text => by rw [hafter]; rintro ⟨⟩, fun there' rel hthere' hrel => ?_⟩
  cases hafter.symm.trans hthere'
  exact hpass.2 there rel hthere (hback.directory _ hrel)

theorem exists_of_mem_sourcesOf {there : List String} {q : Path} (htree : fs.IsTree) (hp : p.Tidy)
    (hpass : fs.Passable p) (hthere : fs.locate p.toString = .ok (.occupied there .directory))
    (hq : q ∈ sourcesOf fs p) :
    ∃ rel e, q = p.extend rel ∧ rel ≠ [] ∧ fs.entry? (there ++ rel) = some e ∧
      (there ++ rel).getLast? = some q.name ∧ IsSourceName q.name ∧
      fs.reach q.toString = .ok (.occupied (there ++ rel) e) := by
  obtain ⟨⟨there', rel, hthere', hrel, rfl, hsome⟩, hname⟩ := (mem_sourcesOf_iff htree hp hpass).1 hq
  cases hthere.symm.trans hthere'
  obtain ⟨e, he⟩ := Option.isSome_iff_exists.1 hsome
  refine ⟨rel, e, rfl, hrel, he, ?_, hname, (htree.reach_below hp hthere he).1⟩
  rw [← dropLast_concat_getLast hrel, Files.name_extend, ← append_assoc, getLast?_concat]

theorem piecesOf_of_reach {q : Path} (h : after.reach q.toString = made.reach q.toString) :
    piecesOf after q = piecesOf made q := by
  have hlocate : after.locate q.toString = made.locate q.toString := by
    rw [Files.reach, Files.reach] at h
    simp only [Files.locate, h]
  rw [piecesOf, piecesOf, sourcePieces, sourcePieces, Files.readText, Files.readText, Files.content,
    Files.content, hlocate]

theorem intercalate_ended {l : List String} (h : l ≠ []) :
    ("\n".intercalate l).toList ++ ['\n'] = l.flatMap fun t => t.toList ++ ['\n'] := by
  induction l with
  | nil => exact absurd rfl h
  | cons t l ih =>
    cases l with
    | nil => simp
    | cons u l =>
      rw [String.intercalate_cons_cons, String.toList_append, append_assoc, ih (by simp), String.toList_append]
      rfl

theorem eq_of_intercalate_eq {head : String} {as bs ps qs : List String}
    (hps : ps = [] ∨ ∃ t, ps = [head, t]) (hqs : qs = [] ∨ ∃ t, qs = [head, t])
    (h : "\n".intercalate (as ++ (ps ++ bs)) = "\n".intercalate (as ++ (qs ++ bs))) : ps = qs := by
  have hended {ps qs : List String} (hps : as ++ (ps ++ bs) ≠ []) (hqs : as ++ (qs ++ bs) ≠ [])
      (h : "\n".intercalate (as ++ (ps ++ bs)) = "\n".intercalate (as ++ (qs ++ bs))) :
      ps.flatMap (fun t => t.toList ++ ['\n']) = qs.flatMap fun t => t.toList ++ ['\n'] := by
    have hlines := congrArg (fun s => s.toList ++ ['\n']) h
    simp only [intercalate_ended hps, intercalate_ended hqs, flatMap_append] at hlines
    exact append_cancel_right (append_cancel_left hlines)
  have hnever (t : String) :
      "\n".intercalate (as ++ ([] ++ bs)) ≠ "\n".intercalate (as ++ ([head, t] ++ bs)) := by
    intro heq
    by_cases hnil : as ++ ([] ++ bs) = []
    · simp only [nil_append, append_eq_nil_iff] at hnil
      rw [hnil.1, hnil.2] at heq
      simpa using congrArg String.toList heq
    · simpa using hended hnil (by simp) heq
  obtain rfl | ⟨t, rfl⟩ := hps <;> obtain rfl | ⟨u, rfl⟩ := hqs
  · rfl
  · exact absurd h (hnever u)
  · exact absurd h.symm (hnever t)
  · have hsame := hended (by simp) (by simp) h
    simp only [flatMap_cons, flatMap_nil, append_nil] at hsame
    rw [String.toList_inj.1 (append_cancel_right (append_cancel_left hsame))]

theorem flatMap_piecesOf {l : List Path} (h : ∀ q ∈ l, piecesOf after q = piecesOf made q) :
    l.flatMap (piecesOf after) = l.flatMap (piecesOf made) := by
  rw [flatMap_def, flatMap_def, map_congr_left h]

theorem piecesOf_cases (fs : Files) (q : Path) :
    piecesOf fs q = [] ∨ ∃ text, piecesOf fs q = [sourceHeader q, text] := by
  cases hread : fs.readText q.toString with
  | error e =>
    left
    rw [piecesOf, sourcePieces, hread]
    rfl
  | ok text =>
    have hpieces : piecesOf fs q = if Text.trim text == "" then [] else [sourceHeader q, text] := by
      rw [piecesOf, sourcePieces, hread]
      rfl
    rw [hpieces]
    split
    · exact .inl rfl
    · exact .inr ⟨text, rfl⟩

section

variable {there : List String} (hmade : made.IsTree) (hp : project.Tidy) (houtput : output.Tidy)
  (hthere : made.locate project.toString = .ok (.occupied there .directory))
  (hpass : made.Passable project)
  (hwrites : Writes now output given name (gathered made project) made after)

include hmade hp houtput hthere hpass hwrites

theorem source_of_reach_ne {q : Path} (hq : q ∈ sourcesOf after project)
    (hne : after.reach q.toString ≠ after.reach (output.child name).toString) :
    q ∈ sourcesOf made project ∧ piecesOf after q = piecesOf made q := by
  obtain ⟨hkeep, hback, hafter, -, -, names, c, hplace, hothers⟩ := hwrites.effect hmade houtput
  obtain ⟨rel, e, rfl, hrel, he, hlast, hname, hreach⟩ := exists_of_mem_sourcesOf hafter hp
    (passable_of_keeps hkeep hback hthere hpass) (Files.locate_directory_of_keeps hkeep hthere) hq
  have hnames : there ++ rel ≠ names := by
    rintro rfl
    have hsame := Files.locate_entry hplace rfl
    cases he.symm.trans hsame
    exact hne (hreach.trans (Files.locate_eq_ok hplace).2.1.symm)
  have hentry := hothers _ _ hlast hname hnames
  rw [he] at hentry
  refine ⟨(mem_sourcesOf_iff hmade hp hpass).2 ⟨⟨there, rel, hthere, hrel, rfl, ?_⟩, hname⟩,
    piecesOf_of_reach ?_⟩
  · rw [← hentry]
    rfl
  · rw [hreach, (hmade.reach_below hp hthere hentry.symm).1]

theorem sourcesOf_subset : sourcesOf made project ⊆ sourcesOf after project := by
  intro q hq
  obtain ⟨hkeep, hback, hafter, -, -, names, c, hplace, hothers⟩ := hwrites.effect hmade houtput
  obtain ⟨rel, e, rfl, hrel, he, hlast, hname, -⟩ := exists_of_mem_sourcesOf hmade hp hpass hthere hq
  refine (mem_sourcesOf_iff hafter hp (passable_of_keeps hkeep hback hthere hpass)).2
    ⟨⟨there, rel, Files.locate_directory_of_keeps hkeep hthere, hrel, rfl, ?_⟩, hname⟩
  by_cases hnames : there ++ rel = names
  · rw [hnames, Files.locate_entry hplace rfl]
    rfl
  · rw [hothers _ _ hlast hname hnames, he]
    rfl

theorem sourcesOf_eq_of_length
    (h : (sourcesOf after project).length = (sourcesOf made project).length) :
    sourcesOf after project = sourcesOf made project := by
  have hsubset := sourcesOf_subset hmade hp houtput hthere hpass hwrites
  obtain ⟨hkeep, hback, hafter, -⟩ := hwrites.effect hmade houtput
  have hpass' := passable_of_keeps hkeep hback hthere hpass
  refine sourcesOf_congr hafter hmade hp hpass' hpass fun q => ⟨fun hq => ?_, fun hq => hsubset hq⟩
  by_cases hmem : q ∈ sourcesOf made project
  · exact hmem
  · have hmore : (q :: sourcesOf made project).Nodup :=
      nodup_cons.2 ⟨hmem, nodup_sourcesOf hmade hp hpass⟩
    have hle := hmore.length_le_of_subset (cons_subset.2 ⟨hq, hsubset⟩)
    grind

theorem eq_of_reach_eq {q q' : Path} (hq : q ∈ sourcesOf after project) (hq' : q' ∈ sourcesOf after project)
    (h : after.reach q.toString = after.reach q'.toString) : q = q' := by
  obtain ⟨hkeep, hback, hafter, -⟩ := hwrites.effect hmade houtput
  have hexists := fun {q : Path} => exists_of_mem_sourcesOf (q := q) hafter hp
    (passable_of_keeps hkeep hback hthere hpass) (Files.locate_directory_of_keeps hkeep hthere)
  obtain ⟨rel, e, rfl, -, -, -, -, hreach⟩ := hexists hq
  obtain ⟨rel', e', rfl, -, -, -, -, hreach'⟩ := hexists hq'
  rw [hreach, hreach'] at h
  injection h with h
  injection h with h
  rw [append_cancel_left h]

/-- A description that does not lie below the project is no source file. -/
theorem settled_of_apart {place : Files.Place} {names : List String}
    (hplace : after.reach (output.child name).toString = .ok place) (hnames : place.names? = some names)
    (hapart : ¬there <+: names) : Settled made after project (output.child name) := by
  intro q hq hreach
  obtain ⟨hkeep, hback, hafter, -⟩ := hwrites.effect hmade houtput
  obtain ⟨rel, e', rfl, -, -, -, -, hq⟩ := exists_of_mem_sourcesOf hafter hp
    (passable_of_keeps hkeep hback hthere hpass) (Files.locate_directory_of_keeps hkeep hthere) hq
  rw [hq, hplace] at hreach
  cases hreach
  cases hnames
  exact absurd (prefix_append there rel) hapart

/-- **What is gathered the second time is what was gathered the first time,** if the description is no
source file or has not changed. -/
theorem gathered_again_iff :
    gathered after project = gathered made project ↔ Settled made after project (output.child name) := by
  have hother := fun {q : Path} => source_of_reach_ne (q := q) hmade hp houtput hthere hpass hwrites
  obtain ⟨hkeep, hback, hafter, -⟩ := hwrites.effect hmade houtput
  have hpass' := passable_of_keeps hkeep hback hthere hpass
  constructor
  · intro hsame q hq hreach
    have hsources : sourcesOf after project = sourcesOf made project := congrArg Build.sources hsame
    have hcode : (consolidate after (sourcesOf after project)).1 =
        (consolidate made (sourcesOf made project)).1 := congrArg Build.code hsame
    refine ⟨hsources ▸ hq, ?_⟩
    -- all other files contribute what they did, and so does this one
    obtain ⟨as, bs, hsplit⟩ := append_of_mem hq
    have hnodup := nodup_sourcesOf hafter hp hpass'
    rw [hsplit] at hnodup
    have hpieces : ∀ x ∈ as ++ bs, piecesOf after x = piecesOf made x := by
      intro x hx
      have hmem : x ∈ sourcesOf after project := by
        rw [hsplit]
        simpa using (mem_append.1 hx).imp_right .inr
      refine (hother hmem fun hsame' => ?_).2
      obtain rfl := eq_of_reach_eq hmade hp houtput hthere hpass hwrites hmem hq (hsame'.trans hreach.symm)
      obtain ⟨-, hlast, hfirst⟩ := nodup_append.1 hnodup
      obtain hx | hx := mem_append.1 hx
      · exact hfirst x hx x mem_cons_self rfl
      · exact (nodup_cons.1 hlast).1 hx
    rw [consolidate_code, consolidate_code, ← hsources, hsplit, flatMap_append, flatMap_append, flatMap_cons,
      flatMap_piecesOf fun x hx => hpieces x (mem_append_left bs hx),
      flatMap_piecesOf fun x hx => hpieces x (mem_append_right as hx)] at hcode
    exact eq_of_intercalate_eq (piecesOf_cases after q) (piecesOf_cases made q) hcode
  · intro hsettled
    have hall : ∀ q ∈ sourcesOf after project,
        q ∈ sourcesOf made project ∧ piecesOf after q = piecesOf made q := by
      intro q hq
      by_cases hreach : after.reach q.toString = after.reach (output.child name).toString
      · exact hsettled q hq hreach
      · exact hother hq hreach
    have hsources : sourcesOf after project = sourcesOf made project :=
      sourcesOf_congr hafter hmade hp hpass' hpass fun q => ⟨fun hq => (hall q hq).1,
        fun hq => sourcesOf_subset hmade hp houtput hthere hpass hwrites hq⟩
    have hcode : (consolidate after (sourcesOf after project)).1 =
        (consolidate made (sourcesOf made project)).1 := by
      rw [consolidate_code, consolidate_code, ← hsources, flatMap_piecesOf fun q hq => (hall q hq).2]
    rw [gathered, gathered, hcode, hsources]

end

/-! ## The second build -/

theorem indexText_inj {b b' : Build} (hcount : b.sources.length = b'.sources.length)
    (h : indexText now b = indexText now b') : b.code = b'.code := by
  rw [indexText_eq, indexText_eq, hcount] at h
  simpa using h

section

variable {there : List String} (htree : site.files.IsTree)
  (hproject : site.build.project.Tidy)
  (hthere : site.files.locate site.build.project.toString = .ok (.occupied there .directory))
  (hbuilt : (compileTo now output given).perform site = (.ok r, built))

include htree hproject hthere hbuilt

theorem exists_writes : ∃ made name, site.files.ensureDirectories output = (.ok (), made) ∧ made.IsTree ∧
    made.locate site.build.project.toString = .ok (.occupied there .directory) ∧
    made.Passable site.build.project ∧
    Writes now output given name (gathered made site.build.project) made built.files ∧
    r = report now output (gathered made site.build.project) := by
  obtain ⟨made, name, hmaking, hfound, hwrites, hr⟩ :=
    (compileTo_eq_ok_iff _).1 ⟨built.printed, built.build, hbuilt⟩
  have hmade := htree.ensureDirectories output
  have hgrows := Files.ensureDirectories_grows site.files output
  rw [hmaking] at hmade hgrows
  have hmakes : site.files.Keeps made := ⟨fun ns => hgrows.entry ns .directory, hgrows.cwd, hgrows.adrift⟩
  exact ⟨made, name, hmaking, hmade, Files.locate_directory_of_keeps hmakes hthere,
    (searchable_iff hmade hproject).1 hfound, hwrites, hr⟩

variable (houtput : output.Tidy)

include houtput

theorem unchanged_iff_gathered {next : Site} (hfiles : next.files = built.files)
    (hsame : next.build.project = site.build.project) :
    (∃ rebuilt, (compileTo now output given).perform next = (.ok r, rebuilt) ∧
        rebuilt.files = built.files) ↔
      gathered built.files site.build.project =
        gathered (site.files.ensureDirectories output).2 site.build.project := by
  obtain ⟨made, name, hmaking, hmade, hthere, hpass, hwrites, hr⟩ :=
    exists_writes htree hproject hthere hbuilt
  rw [hmaking]
  obtain ⟨hkeep, hback, hafter, hagain, ⟨_, hindex⟩, -⟩ := hwrites.effect hmade houtput
  have hmaking' := Files.ensureDirectories_again hmaking hkeep
  constructor
  · rintro ⟨rebuilt, hrebuilt, hleft⟩
    obtain ⟨made', name', hmaking₂, -, hwrites', hr'⟩ :=
      (compileTo_eq_ok_iff _).1 ⟨rebuilt.printed, rebuilt.build, hrebuilt⟩
    rw [hfiles, hmaking'] at hmaking₂
    cases hmaking₂
    rw [hsame] at hwrites' hr'
    rw [hleft] at hwrites'
    -- the report has the number of the source files, and the index has their joined text
    obtain ⟨-, -, -, -, ⟨_, hindex'⟩, -⟩ := hwrites'.effect hafter houtput
    have hcount : (sourcesOf built.files site.build.project).length =
        (sourcesOf made site.build.project).length := by
      have hreports := hr'.symm.trans hr
      simp only [report, gathered, Json.obj.injEq, cons.injEq, Prod.mk.injEq, Json.int.injEq] at hreports
      omega
    have hsources := sourcesOf_eq_of_length hmade hproject houtput hthere hpass hwrites hcount
    have htexts : indexText now (gathered built.files site.build.project) =
        indexText now (gathered made site.build.project) := by
      have hplaces := hindex'.symm.trans hindex
      simp only [Except.ok.injEq, Files.Place.occupied.injEq, Entry.file.injEq, Content.text.injEq] at hplaces
      exact hplaces.2
    have hcode : (consolidate built.files (sourcesOf built.files site.build.project)).1 =
        (consolidate made (sourcesOf made site.build.project)).1 := indexText_inj hcount htexts
    rw [gathered, gathered, hcode, hsources]
  · intro hgathered
    have hfound := (searchable_iff hafter hproject).2 (passable_of_keeps hkeep hback hthere hpass)
    rw [← hgathered, ← hsame] at hagain hr
    rw [← hsame] at hfound
    have hrebuilt : ∃ printed b, (compileTo now output given).perform next =
        (.ok r, ⟨built.files, printed, b⟩) := (compileTo_eq_ok_iff next).2
      ⟨built.files, name, by rw [hfiles, hmaking'], hfound, hagain, hr⟩
    obtain ⟨printed, b, hrebuilt⟩ := hrebuilt
    exact ⟨_, hrebuilt, rfl⟩

/-- **Building again.** A build of a project that is a directory has returned, and another one starts with
the files that it has left. That one returns the same report and leaves the files exactly as they are if
and only if no source file is the description of the package, or one is that was a source file before with
the same text. -/
theorem compileTo_again_iff {next : Site} (hfiles : next.files = built.files)
    (hsame : next.build.project = site.build.project) :
    (∃ rebuilt, (compileTo now output given).perform next = (.ok r, rebuilt) ∧
        rebuilt.files = built.files) ↔
      ∃ name, descriptionName given = .ok name ∧
        Settled (site.files.ensureDirectories output).2 built.files site.build.project
          (output.child name) := by
  rw [unchanged_iff_gathered htree hproject hthere hbuilt houtput hfiles hsame]
  obtain ⟨made, name, hmaking, hmade, hthere, hpass, hwrites, -⟩ :=
    exists_writes htree hproject hthere hbuilt
  rw [hmaking, gathered_again_iff hmade hproject houtput hthere hpass hwrites]
  constructor
  · exact fun hsettled => ⟨name, hwrites.named, hsettled⟩
  · rintro ⟨name', hname, hsettled⟩
    cases hwrites.named.symm.trans hname
    exact hsettled

end

def namedLib : Json := .obj [("name", .str "lib")]

/-- What is gathered of the small project. -/
def smallBuild : Build :=
  let sources : List Path := [⟨"", ["p", "a.opn"]⟩, ⟨"", ["p", "b.prisma"]⟩, ⟨"", ["p", "c.prisma"]⟩]
  ⟨⟨"", ["p"]⟩, sources, (consolidate smallProject.made sources).1, []⟩

theorem gathered_smallProject : gathered smallProject.made smallProject.build.project = smallBuild := by
  have hsources : sourcesOf smallProject.made smallProject.build.project = smallBuild.sources := smallProject.sources_eq
  have hfunctions : documentedSignatures smallBuild.code = [] := by decide +kernel
  rw [gathered, hsources]
  exact congrArg (Build.mk _ _ _) hfunctions

/-- Built beside itself, the small project is built in the same way again, from three source files. -/
theorem compileTo_again_beside :
    ∃ r built, (compileTo "now" ⟨"", ["out"]⟩ namedLib).perform smallProject = (.ok r, built) ∧
      r.field? "source_files" = some (.int 3) ∧
      ∃ rebuilt, (compileTo "now" ⟨"", ["out"]⟩ namedLib).perform
        { built with build := smallProject.build } = (.ok r, rebuilt) ∧ rebuilt.files = built.files := by
  obtain ⟨after, hwrites, place, hplace, hnames⟩ : ∃ after, Writes "now" ⟨"", ["out"]⟩ namedLib "lib.opn"
      (gathered smallProject.made smallProject.build.project) smallProject.made after ∧ ∃ place,
        after.reach (Path.child ⟨"", ["out"]⟩ "lib.opn").toString = .ok place ∧
        place.names? = some ["w", "out", "lib.opn"] := by
    rw [gathered_smallProject]
    obtain ⟨r, built, hrun, hreach⟩ := exists_run_eq_ok
      (P := fun s : Site => (s.files.reach (Path.child ⟨"", ["out"]⟩ "lib.opn").toString).toOption.map
        Files.Place.names? = some (some ["w", "out", "lib.opn"]))
      (r := (writeAll "now" ⟨"", ["out"]⟩ namedLib).perform ⟨smallProject.made, "", smallBuild⟩)
      (by decide +kernel)
    obtain ⟨name, hwrites, -⟩ := writeAll_eq_ok hrun
    obtain rfl : "lib.opn" = name := Except.ok.inj hwrites.named
    exact ⟨_, hwrites, exists_eq_ok_of_map _ hreach⟩
  have htree : smallProject.files.IsTree := ⟨by decide, by decide +kernel, by decide +kernel⟩
  have hmade : smallProject.made.IsTree := ⟨by decide, by decide +kernel, by decide +kernel⟩
  have hproject : smallProject.build.project.Tidy := ⟨by decide, by decide +kernel⟩
  have houtput : Path.Tidy ⟨"", ["out"]⟩ := ⟨by decide, by decide +kernel⟩
  have hfound : (candidates smallProject.made smallProject.build.project sourceSuffixes).failure = none := by
    decide +kernel
  obtain ⟨printed, b, hbuilt⟩ := (compileTo_eq_ok_iff smallProject).2
    ⟨smallProject.made, "lib.opn", smallProject.ensureDirectories, hfound, hwrites, rfl⟩
  refine ⟨_, _, hbuilt, by rw [gathered_smallProject]; rfl, (compileTo_again_iff htree hproject (by rfl) hbuilt
    houtput (by rfl) (by rfl)).2 ⟨"lib.opn", hwrites.named, ?_⟩⟩
  rw [smallProject.ensureDirectories]
  exact settled_of_apart hmade hproject houtput (by rfl) ((searchable_iff hmade hproject).1 hfound) hwrites hplace
    hnames (by decide)

def emptyProject : Site :=
  ⟨⟨[(["w"], .directory), (["w", "p"], .directory)], ["w"], ["w"], false⟩, "", .ofProject ⟨"", ["p"]⟩⟩

/-- Built into itself, a project is not: the second build finds the description that the first one has left. -/
theorem description_found_again :
    ∃ r built, (compileTo "now" ⟨"", ["p", "out"]⟩ namedLib).perform emptyProject = (.ok r, built) ∧
      ¬∃ rebuilt, (compileTo "now" ⟨"", ["p", "out"]⟩ namedLib).perform
        { built with build := emptyProject.build } = (.ok r, rebuilt) ∧ rebuilt.files = built.files := by
  have hcomputed : let built := (compileTo "now" ⟨"", ["p", "out"]⟩ namedLib).perform emptyProject
      let rebuilt := (compileTo "now" ⟨"", ["p", "out"]⟩ namedLib).perform
        { built.2 with build := emptyProject.build }
      built.1.toOption.isSome = true ∧ rebuilt.2.files.entries ≠ built.2.files.entries := by decide +kernel
  obtain ⟨r, hr⟩ := exists_eq_ok hcomputed.1
  refine ⟨r, _, Prod.ext hr rfl, fun ⟨rebuilt, hrebuilt, hfiles⟩ => hcomputed.2 ?_⟩
  rw [hrebuilt, hfiles]

end Package

end ScriptWorkbench
