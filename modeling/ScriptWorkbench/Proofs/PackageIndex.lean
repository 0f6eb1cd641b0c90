/-
The index of a package is its program (`compileTo_index_readsWhole`).

A build writes the texts of a project's source files into one file, each under a comment with the name of the
file. The steps of a build after that write to other names, so that the index is what it was, even if one of
them fails.
-/
import ScriptWorkbench.Package.Build
import ScriptWorkbench.Proofs.StoreFiles
import ScriptWorkbench.Proofs.WholePrograms

namespace ScriptWorkbench

namespace Package

open ScriptWorkbench.Action List

variable {α : Type} {fs : Files} {site : Site} {path : Path}

/-! ## The order of the files -/

theorem namesBefore_cons (a b : String) (as bs : List String) :
    namesBefore (a :: as) (b :: bs) = if a = b then namesBefore as bs else decide (a ≤ b) := by
  rw [namesBefore]

theorem namesBefore_trans {as bs cs : List String} (hab : namesBefore as bs = true)
    (hbc : namesBefore bs cs = true) : namesBefore as cs = true := by
  induction as generalizing bs cs with
  | nil => rfl
  | cons a as ih =>
    cases bs with
    | nil => cases hab
    | cons b bs =>
      cases cs with
      | nil => cases hbc
      | cons c cs =>
        rw [namesBefore_cons] at hab hbc ⊢
        by_cases hb : a = b
        · subst hb
          rw [if_pos rfl] at hab
          by_cases hc : a = c
          · rw [if_pos hc] at hbc ⊢
            exact ih hab hbc
          · rwa [if_neg hc] at hbc ⊢
        · rw [if_neg hb] at hab
          by_cases hc : b = c
          · subst hc
            rwa [if_neg hb]
          · rw [if_neg hc] at hbc
            have hle := of_decide_eq_true hab
            have hle' := of_decide_eq_true hbc
            -- a first name that came back would be equal to the one between
            have hne : a ≠ c := by
              rintro rfl
              exact hb (String.le_antisymm hle hle')
            rw [if_neg hne]
            exact decide_eq_true (String.le_trans hle hle')

theorem namesBefore_total (as bs : List String) :
    (namesBefore as bs || namesBefore bs as) = true := by
  induction as generalizing bs with
  | nil => rfl
  | cons a as ih =>
    cases bs with
    | nil => rfl
    | cons b bs =>
      rw [namesBefore_cons, namesBefore_cons]
      by_cases hb : a = b
      · rw [if_pos hb, if_pos hb.symm]
        exact ih bs
      · rw [if_neg hb, if_neg (Ne.symm hb), Bool.or_eq_true, decide_eq_true_iff, decide_eq_true_iff]
        exact String.le_total a b

theorem sortPaths_pairwise (paths : List Path) :
    (sortPaths paths).Pairwise fun p q => namesBefore p.components q.components = true := by
  refine pairwise_mergeSort ?_ ?_ paths
  · intro p q r hpq hqr
    exact namesBefore_trans hpq hqr
  · intro p q
    exact namesBefore_total _ _

/-! ## The text of the index -/

def OneLine (s : String) : Prop := '\n' ∉ s.toList ∧ '\r' ∉ s.toList

theorem OneLine.append {s t : String} (hs : OneLine s) (ht : OneLine t) : OneLine (s ++ t) := by
  constructor <;> rw [String.toList_append, mem_append]
  · exact fun h => h.elim hs.1 ht.1
  · exact fun h => h.elim hs.2 ht.2

theorem oneLine_toString (n : Nat) : OneLine (toString n) := by
  constructor <;> intro h <;> have hdigit := Target.digits_toString n _ h <;> cases hdigit

/-- A text that is read as a whole and has no carriage returns, so that a file keeps it as it is. -/
def Plain (text : String) (p : Program) : Prop := ReadsWhole text p ∧ '\r' ∉ text.toList

theorem plain_comment {s : String} (h : OneLine s) : Plain ("//" ++ s) .empty := by
  refine ⟨readsWhole_comment h.1, ?_⟩
  rw [String.toList_append, mem_append]
  exact fun hmem => hmem.elim (by decide) h.2

theorem plain_nothing : Plain "" .empty := ⟨readsWhole_nothing, by decide⟩

theorem Plain.append {a b : String} {p q : Program} (ha : Plain a p) (hb : Plain b q) :
    Plain (a ++ "\n" ++ b) (Program.concat [p, q]) := by
  refine ⟨ha.1.append hb.1, ?_⟩
  simp [ha.2, hb.2]

theorem sourceHeader_eq (p : Path) :
    sourceHeader p = "" ++ "\n" ++ ("//" ++ (" === From: " ++ p.name ++ " ===") ++ "\n" ++ "") := by
  have hfirst : "\n// === From: " = "\n" ++ ("//" ++ " === From: ") := by decide
  have hlast : " ===\n" = " ===" ++ "\n" := by decide
  change "\n// === From: " ++ p.name ++ " ===\n" = _
  rw [hfirst, hlast]
  simp only [String.append_assoc, String.empty_append, String.append_empty]

theorem indexText_eq (now : String) (b : Build) :
    indexText now b = "//" ++ " Auto-generated index.prisma" ++ "\n" ++ ("//" ++ (" Generated: " ++ now) ++
      "\n" ++ ("//" ++ (" Source files: " ++ toString b.sources.length) ++ "\n" ++
        ("" ++ "\n" ++ b.code))) := by
  have hfirst : "// Auto-generated index.prisma\n// Generated: " =
      "//" ++ " Auto-generated index.prisma" ++ "\n" ++ ("//" ++ " Generated: ") := by decide
  have hcount : "\n// Source files: " = "\n" ++ ("//" ++ " Source files: ") := by decide
  have hgap : "\n\n" = "\n" ++ "" ++ "\n" := by decide
  change "// Auto-generated index.prisma\n// Generated: " ++ now ++ "\n// Source files: " ++
    toString b.sources.length ++ "\n\n" ++ b.code = _
  rw [hfirst, hcount, hgap]
  simp only [String.append_assoc]

theorem plain_sourceHeader {p : Path} (h : OneLine p.name) : Plain (sourceHeader p) .empty := by
  have hcomment : OneLine (" === From: " ++ p.name ++ " ===") :=
    OneLine.append (OneLine.append ⟨by decide, by decide⟩ h) ⟨by decide, by decide⟩
  rw [sourceHeader_eq]
  exact plain_nothing.append ((plain_comment hcomment).append plain_nothing)

theorem plain_indexText {now : String} (hnow : OneLine now) {b : Build} {p : Program}
    (h : Plain b.code p) : Plain (indexText now b) p := by
  have hempty : ∀ q : Program, Program.concat [.empty, q] = q := by
    simp [Program.concat, Program.empty]
  have hdate : OneLine (" Generated: " ++ now) := OneLine.append ⟨by decide, by decide⟩ hnow
  have hcount : OneLine (" Source files: " ++ toString b.sources.length) :=
    OneLine.append ⟨by decide, by decide⟩ (oneLine_toString _)
  have hall := (plain_comment (s := " Auto-generated index.prisma") ⟨by decide, by decide⟩).append
    ((plain_comment hdate).append ((plain_comment hcount).append (plain_nothing.append h)))
  rw [indexText_eq]
  rwa [hempty, hempty, hempty, hempty] at hall

/-! ## The joined text -/

/-- A source file: its name has no line ends, and its text is read as a whole as the program. -/
def IsSource (fs : Files) (p : Path) (program : Program) : Prop :=
  OneLine p.name ∧ ∃ text, fs.readText p.toString = .ok text ∧ ReadsWhole text program

theorem sourcePieces_of_isSource {p : Path} {program : Program} (h : IsSource fs p program) :
    ∃ pieces, sourcePieces fs p = .ok pieces ∧ ReadsEach pieces program ∧
      ∀ piece ∈ pieces, '\r' ∉ piece.toList := by
  obtain ⟨hname, text, hread, hwhole⟩ := h
  have hheader := plain_sourceHeader hname
  rw [sourcePieces, hread]
  cases hblank : Text.trim text == "" with
  | true =>
    -- a blank file is left out, and has no items
    refine ⟨[], by simp [Except.map, hblank], ?_, fun _ hmem => absurd hmem not_mem_nil⟩
    rw [hwhole.eq_empty (beq_iff_eq.1 hblank)]
    exact readsEach_nil
  | false =>
    refine ⟨[sourceHeader p, text], by simp [Except.map, hblank], ?_, ?_⟩
    · exact ⟨[(sourceHeader p, .empty), (text, program)], rfl, by simp [Program.concat, Program.empty],
        by simp [hheader.1, hwhole]⟩
    · simp [hheader.2, Files.not_mem_of_readText hread]

/-- **The joined text of source files** is read as their programs. -/
theorem plain_consolidate {sources : List Path} {program : Path → Program}
    (h : ∀ p ∈ sources, IsSource fs p (program p)) :
    Plain (consolidate fs sources).1 (Program.concat (sources.map program)) := by
  have hcode : (consolidate fs sources).1 =
      "\n".intercalate (sources.flatMap fun p => (sourcePieces fs p).toOption.getD []) := by
    rw [consolidate, flatMap_map]
  have hpieces : ∀ p ∈ sources, ReadsEach ((sourcePieces fs p).toOption.getD []) (program p) ∧
      ∀ piece ∈ (sourcePieces fs p).toOption.getD [], '\r' ∉ piece.toList := by
    intro p hp
    obtain ⟨pieces, heq, hreads, hreturn⟩ := sourcePieces_of_isSource (h p hp)
    rw [heq]
    exact ⟨hreads, hreturn⟩
  rw [hcode]
  refine ⟨(readsEach_flatMap fun p hp => (hpieces p hp).1).intercalate, ?_⟩
  rw [Path.mem_intercalate_iff (by decide)]
  rintro ⟨piece, hpiece, hreturn⟩
  obtain ⟨p, hp, hmem⟩ := mem_flatMap.1 hpiece
  exact (hpieces p hp).2 piece hmem hreturn

/-! ## The steps of a build -/

theorem perform_withFiles {a : Action Files FileError α} {x : α}
    (h : a.perform site.files = (.ok x, fs)) :
    (withFiles (Settings.onFiles a)).perform site = (.ok x, { site with files := fs }) := by
  rw [withFiles, perform_within, Settings.onFiles, perform_within]
  simp only [id]
  rw [h]
  rfl

theorem discover_eq (site : Site) :
    let found := candidates site.files site.build.project sourceSuffixes
    (discover .null).perform site =
      (match found.failure with
        | some e => .error (.file e)
        | none => .ok (sourceFiles found.paths),
      { site with build := { site.build with sources :=
        if found.failure.isSome then found.paths else sourceFiles found.paths } }) := by
  have hgather (f : Build → Build) (s : Site) :
      (gathering f).perform s = (.ok (), { s with build := f s.build }) := rfl
  have hends (s : Site) : (shaped (suffixesOf .null)).perform s = (.ok sourceSuffixes, s) := rfl
  have hget (s : Site) : (get : Making Site).perform s = (.ok s, s) := rfl
  rw [discover, perform_bind_ok (hgather _ _), perform_bind_ok (hends _), perform_bind_ok (hget _)]
  dsimp only
  cases (candidates site.files site.build.project sourceSuffixes).failure <;> rfl

theorem perform_discover
    (h : (candidates site.files site.build.project sourceSuffixes).failure = none) :
    (discover .null).perform site =
      (.ok (sourceFiles (candidates site.files site.build.project sourceSuffixes).paths),
        { site with build := { site.build with
          sources := sourceFiles (candidates site.files site.build.project sourceSuffixes).paths } }) := by
  rw [discover_eq, h]
  rfl

theorem perform_writeIndex {now : String}
    (h : site.files.writeText path.toString (indexText now site.build) = .ok fs) :
    (writeIndex now path).perform site = (.ok (indexText now site.build), { site with files := fs }) := by
  have hget : (get : Making Site).perform site = (.ok site, site) := rfl
  have hproduce : (produce path (indexText now site.build)).perform site =
      (.ok (), { site with files := fs }) := perform_withFiles (perform_writing_ok h)
  rw [writeIndex, perform_bind_ok hget]
  rw [perform_bind_ok hproduce]
  rfl

/-! ## What stays -/

def Spares (P : Files → Prop) (path : Path) : Prop :=
  ∀ fs fs' text, fs.writeText path.toString text = .ok fs' → P fs → P fs'

section

variable {P : Files → Prop}

theorem leaves_record (hpath : Spares P path) (v : Json) :
    Leaves (fun site : Site => P site.files) (record path v) := by
  intro site hsite
  rw [record, withFiles, perform_within]
  cases hrun : (Settings.Store.save path.toString v).perform site.files with
  | mk r fs =>
    obtain ⟨_, -, -, rfl⟩ | ⟨-, -, hwrite⟩ | ⟨_, -, -, hwrite⟩ := Settings.Store.save_cases hrun
    · exact hsite
    · exact hpath _ _ _ hwrite hsite
    · exact hpath _ _ _ hwrite hsite

theorem leaves_produce (hpath : Spares P path) (text : String) :
    Leaves (fun site : Site => P site.files) (produce path text) := by
  intro site hsite
  rw [produce, withFiles, perform_within]
  cases hwrite : site.files.writeText path.toString text with
  | error e => rw [Settings.Store.perform_write_error hwrite]; exact hsite
  | ok fs => rw [Settings.Store.perform_write_ok hwrite]; exact hpath _ _ _ hwrite hsite

theorem leaves_get : Leaves (fun site : Site => P site.files) (get : Making Site) := fun _ h => h

theorem leaves_pure (x : α) : Leaves (fun site : Site => P site.files) (pure x : Making α) := fun _ h => h

theorem leaves_shaped_bind {β : Type} {r : Except Json.AccessError α} {f : α → Making β}
    (h : ∀ x, r = .ok x → Leaves (fun site : Site => P site.files) (f x)) :
    Leaves (fun site : Site => P site.files) (shaped r >>= f) := by
  intro site hsite
  cases r with
  | error e =>
    have hfails : (shaped (.error e) : Making α).perform site = (.error (.shape e), site) := rfl
    rw [perform_bind_error hfails]
    exact hsite
  | ok x =>
    have hgives : (shaped (.ok x) : Making α).perform site = (.ok x, site) := rfl
    rw [perform_bind_ok hgives]
    exact h x rfl site hsite

theorem descriptionName_suffix {given : Json} {name : String} (h : descriptionName given = .ok name) :
    ".opn".toList <:+ name.toList := by
  rw [descriptionName] at h
  obtain ⟨v, -, h⟩ := bind_eq_ok h
  cases h
  simp

theorem leaves_furtherFiles {output : Path} (now : String) (given : Json)
    (hfunctions : Spares P (output.child "functions.json"))
    (hdescription : ∀ name, ".opn".toList <:+ name.toList → Spares P (output.child name)) :
    Leaves (fun site : Site => P site.files) (do
      let _ ← writeFunctions now (output.child "functions.json")
      let _ ← writeDescription (output.child (← shaped (descriptionName given))) given
      return report now output (← get).build) := by
  refine (leaves_get.bind fun _ => (leaves_record hfunctions _).bind fun _ => leaves_pure _).bind
    fun _ => ?_
  refine leaves_shaped_bind fun name hname => ?_
  refine (leaves_get.bind fun _ => leaves_shaped_bind fun _ _ =>
    (leaves_record (hdescription name (descriptionName_suffix hname)) _).bind fun _ => leaves_pure _).bind
    fun _ => ?_
  exact leaves_get.bind fun _ => leaves_pure _

end

def Holds (index s : String) (site : Site) : Prop := site.files.readText index = .ok s

theorem leaves_afterIndex (now : String) (output : Path) (given : Json) (s : String) :
    Leaves (Holds (output.child indexName).toString s) (do
      let _ ← writeFunctions now (output.child "functions.json")
      let _ ← writeDescription (output.child (← shaped (descriptionName given))) given
      return report now output (← get).build) := by
  have hindex : Path.NameEnd indexName.toList := ⟨by decide, 'a', by decide⟩
  have hspares {w : List Char} {name : String} (hw : Path.NameEnd w) (hname : w <:+ name.toList)
      (h : ¬indexName.toList <:+ w) (h' : ¬w <:+ indexName.toList) :
      Spares (fun fs => fs.readText (output.child indexName).toString = .ok s) (output.child name) :=
    fun _ _ _ hwrite hread => Files.readText_writeText_of_apart hread hwrite
      (Path.apart_child hindex hw (suffix_refl _) hname h h' output output)
  exact leaves_furtherFiles now given
    (hspares ⟨by decide, 'f', by decide⟩ (suffix_refl _) (by decide) (by decide))
    fun name hname => hspares ⟨by decide, 'o', by decide⟩ hname (by decide) (by decide)

/-- **The index of a package is the program of its source files.** Let the directory for the output be
there or be made, let the search for source files succeed, each of them being read as a whole, and let the
index be a file that can be written. Then after the build, whatever comes of its other steps, the index
is read as a whole: its functions, its statements and its classes are those of the files one after
another, in the order of the paths. -/
theorem compileTo_index_readsWhole {now : String} {output : Path} {site : Site} {made : Files}
    {program : Path → Program} (hnow : OneLine now)
    (hmade : (Files.making output).perform site.files = (.ok (), made))
    (hfound : (candidates made site.build.project sourceSuffixes).failure = none)
    (hsources : ∀ p ∈ sourceFiles (candidates made site.build.project sourceSuffixes).paths,
      IsSource made p (program p))
    (hindex : made.Writable (output.child indexName).toString) (given : Json) :
    let sources := sourceFiles (candidates made site.build.project sourceSuffixes).paths
    sources.Pairwise (fun p q => namesBefore p.components q.components = true) ∧
      ∃ text, Files.readText ((compileTo now output given).perform site).2.files
          (output.child indexName).toString = .ok text ∧
        ReadsWhole text ⟨sources.flatMap fun p => (program p).functions,
          sources.flatMap fun p => (program p).statements,
          sources.flatMap fun p => (program p).classes⟩ := by
  intro sources
  refine ⟨sortPaths_pairwise _, ?_⟩
  have hcode := plain_consolidate hsources
  -- the state in front of each step, up to the writing of the index
  let found : Site := { site with files := made, build := { site.build with sources } }
  let joined : Site := { found with
    printed := found.printed ++ (consolidate made sources).2
    build := { found.build with code := (consolidate made sources).1 } }
  let listed : Site := { joined with
    build := { joined.build with functions := documentedSignatures joined.build.code } }
  have hmaking := perform_withFiles hmade
  have hdiscover : (discover .null).perform { site with files := made } = (.ok sources, found) :=
    perform_discover hfound
  have hjoin : joinSources.perform found = (.ok joined.build.code, joined) := rfl
  have hlist : listFunctions.perform joined = (.ok listed.build.functions, listed) := rfl
  have htext := plain_indexText hnow (b := listed.build) hcode
  obtain ⟨fs, hwrite, hread⟩ := Files.readText_writeText hindex htext.2
  have hwritten : (writeIndex now (output.child indexName)).perform listed = _ := perform_writeIndex hwrite
  refine ⟨indexText now listed.build, ?_, ?_⟩
  · rw [compileTo, perform_bind_ok hmaking, perform_bind_ok hdiscover, perform_bind_ok hjoin,
      perform_bind_ok hlist, perform_bind_ok hwritten]
    exact leaves_afterIndex now output given _ _ hread
  · have hprogram : Program.concat (sources.map program) = ⟨sources.flatMap fun p => (program p).functions,
        sources.flatMap fun p => (program p).statements,
        sources.flatMap fun p => (program p).classes⟩ := by
      simp only [Program.concat, List.flatMap_map]
    rw [← hprogram]
    exact htext.1

/-- A project of two files and a blank one. The order of the paths is not that of the directory. -/
def smallProject : Site :=
  ⟨⟨[(["w"], .directory), (["w", "p"], .directory), (["w", "p", "b.prisma"], .file (.text "let x = 1;")),
    (["w", "p", "c.prisma"], .file (.text " \r\n")), (["w", "p", "a.opn"], .file (.text "main \x7b\x7d"))],
    ["w"], ["w"], false⟩, "", .ofProject ⟨"", ["p"]⟩⟩

def smallProject.made : Files := smallProject.files.put ["w", "out"] .directory

def smallProject.program (p : Path) : Program :=
  if p.name = "a.opn" then ⟨[⟨"main", [], .block []⟩], [], []⟩
  else if p.name = "b.prisma" then ⟨[], [.letVar "x" (.literal (.int 1))], []⟩ else .empty

theorem smallProject.ensureDirectories :
    smallProject.files.ensureDirectories ⟨"", ["out"]⟩ = (.ok (), smallProject.made) := by
  have hpath : Path.toString ⟨"", ["out"]⟩ = "out" := by decide +kernel
  have hmake : smallProject.files.makeDirectory "out" = .ok smallProject.made := rfl
  rw [Files.ensureDirectories, hpath, hmake]

theorem smallProject.sources_eq :
    sourceFiles (candidates made smallProject.build.project sourceSuffixes).paths =
      [⟨"", ["p", "a.opn"]⟩, ⟨"", ["p", "b.prisma"]⟩, ⟨"", ["p", "c.prisma"]⟩] := by
  have hfound : (candidates made smallProject.build.project sourceSuffixes).paths =
      [⟨"", ["p", "b.prisma"]⟩, ⟨"", ["p", "c.prisma"]⟩, ⟨"", ["p", "a.opn"]⟩] := by decide +kernel
  have hba : namesBefore ["p", "b.prisma"] ["p", "a.opn"] = false := by decide +kernel
  have hbc : namesBefore ["p", "b.prisma"] ["p", "c.prisma"] = true := by decide +kernel
  rw [hfound]
  simp [sourceFiles, sortPaths, Path.name, indexName, mergeSort, Path.components, hba, hbc]

theorem smallProject.isSource : ∀ p ∈ [⟨"", ["p", "a.opn"]⟩, ⟨"", ["p", "b.prisma"]⟩,
    ⟨"", ["p", "c.prisma"]⟩], IsSource made p (program p) := by
  have hscanMain : Token.scan "main \x7b\x7d" = .ok [⟨.mainWord, "main", ⟨1, 1⟩⟩,
      ⟨.leftBrace, "\x7b", ⟨1, 6⟩⟩, ⟨.rightBrace, "\x7d", ⟨1, 7⟩⟩, ⟨.endOfInput, "", ⟨1, 8⟩⟩] :=
    eq_ok_of_toOption (by decide +kernel)
  have hscanLet : Token.scan "let x = 1;" = .ok [⟨.letWord, "let", ⟨1, 1⟩⟩, ⟨.identifier, "x", ⟨1, 5⟩⟩,
      ⟨.equal, "=", ⟨1, 7⟩⟩, ⟨.number, "1", ⟨1, 9⟩⟩, ⟨.semicolon, ";", ⟨1, 10⟩⟩,
      ⟨.endOfInput, "", ⟨1, 11⟩⟩] := eq_ok_of_toOption (by decide +kernel)
  intro p hp
  simp only [mem_cons, not_mem_nil, or_false] at hp
  obtain rfl | rfl | rfl := hp
  · refine ⟨⟨by decide, by decide⟩, "main \x7b\x7d", eq_ok_of_toOption (by decide +kernel), ?_⟩
    exact readsWhole_of_parse hscanMain rfl (by decide +kernel)
  · refine ⟨⟨by decide, by decide⟩, "let x = 1;", eq_ok_of_toOption (by decide +kernel), ?_⟩
    exact readsWhole_of_parse hscanLet rfl (by decide +kernel)
  · refine ⟨⟨by decide, by decide⟩, " \n", eq_ok_of_toOption (by decide +kernel), ?_⟩
    exact readsWhole_empty_of_scan (r := ⟨2, 1⟩) (eq_ok_of_toOption (by decide +kernel))

/-- Nothing is given for the description of the package, so that the build fails at its last step. The
index is there all the same. -/
theorem compileTo_index_readsWhole_small_project :
    ∃ text, Files.readText ((compileTo "2024-01-02" ⟨"", ["out"]⟩ .null).perform smallProject).2.files
        "out/index.prisma" = .ok text ∧
      ReadsWhole text ⟨[⟨"main", [], .block []⟩], [.letVar "x" (.literal (.int 1))], []⟩ := by
  have hmade : (Files.making ⟨"", ["out"]⟩).perform smallProject.files =
      (.ok (), smallProject.made) := by
    rw [perform_making, smallProject.ensureDirectories]
  have hfound : (candidates smallProject.made smallProject.build.project sourceSuffixes).failure = none := by
    decide +kernel
  have hsources := smallProject.isSource
  rw [← smallProject.sources_eq] at hsources
  have hindex : smallProject.made.Writable (Path.child ⟨"", ["out"]⟩ indexName).toString := by
    have hpath : (Path.child ⟨"", ["out"]⟩ indexName).toString = "out/index.prisma" := by decide +kernel
    have hfree : (smallProject.made.writeText "out/index.prisma" "").toOption.isSome = true := by
      decide +kernel
    rw [hpath]
    exact ⟨"", exists_eq_ok hfree⟩
  have hnow : OneLine "2024-01-02" := ⟨by decide, by decide⟩
  obtain ⟨-, text, hread, hwhole⟩ := compileTo_index_readsWhole hnow hmade hfound hsources hindex .null
  rw [smallProject.sources_eq] at hwhole
  exact ⟨text, hread, hwhole⟩

end Package

end ScriptWorkbench
