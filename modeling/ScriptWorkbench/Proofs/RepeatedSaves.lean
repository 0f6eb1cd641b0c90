/-
Opening a file in the editor and saving it again.

What is saved is the text of the buffer with one more line feed, in whichever of the three ways it is saved
(`readText_rounds`).
-/
import ScriptWorkbench.Editor.Session
import ScriptWorkbench.Proofs.FileWrites

namespace ScriptWorkbench.Editor

variable {s : Session} {path text : String}

/-! ## Saving -/

inductive Saving where
  | save
  | run
  | transpile
deriving Repr, DecidableEq

def Saving.action : Saving → Action
  | .save => .saveFile
  | .run => .run
  | .transpile => .transpile

/-- The file of the path is open, and the text is that of the buffer. -/
structure Shows (s : Session) (path text : String) : Prop where
  file : s.desk.file = some path
  buffer : s.desk.buffer.text = text

theorem files_runFile_transpileFile (o : Outside) (file : String) (t : Transcript) :
    ((runFile o file).run t).2.files = t.files ∧ ((transpileFile o file).run t).2.files = t.files := by
  rw [runFile, transpileFile]
  cases o.process with
  | timedOut | failed => exact ⟨rfl, rfl⟩
  | finished stdout stderr code =>
    simp only [writeOutput]
    constructor <;> split <;> split <;> split <;> rfl

theorem Shows.file? (h : Shows s path text) (hpath : path ≠ "") : s.desk.file? = some path := by
  simp [Desk.file?, h.file, hpath]

theorem run_saveFile {fs : Files} (o : Outside) (h : Shows s path text) (hpath : path ≠ "")
    (hwrite : s.files.writeText path (text ++ "\n") = .ok fs) :
    ((saveFile o).run s).2.files = fs ∧ Shows ((saveFile o).run s).2 path text := by
  have hcontent : s.desk.buffer.content = text ++ "\n" := by rw [Buffer.content, h.buffer]
  have hsave : (saveFile o).run s = (reportSaved path).run { s with files := fs } := by
    simp [saveFile, writeTo, h.file? hpath, hcontent, hwrite]
  rw [hsave]
  exact ⟨rfl, h.file, h.buffer⟩

/-- Running a file saves it first, and what runs does not touch the files. -/
theorem run_withSaved {fs : Files} (o : Outside) (warning doing : String) {act : String → Run Unit}
    (hact : ∀ t, ((act path).run t).2.files = t.files) (h : Shows s path text) (hpath : path ≠ "")
    (hwrite : s.files.writeText path (text ++ "\n") = .ok fs) :
    ((withSaved o warning doing act).run s).2.files = fs ∧
      Shows ((withSaved o warning doing act).run s).2 path text := by
  obtain ⟨hfiles, hshows⟩ := run_saveFile o h hpath hwrite
  have hrun : (withSaved o warning doing act).run s =
      (say s!"{doing} {path}..." "info" >>= fun _ => inConsole (act path)).run ((saveFile o).run s).2 := by
    simp only [withSaved, StateT.run_bind, StateT.run_get, pure_bind, h.file? hpath]
    rfl
  rw [hrun, ← hfiles]
  exact ⟨hact _, hshows.file, hshows.buffer⟩

theorem saving_step (h : Shows s path text) {before : String} (hread : s.files.readText path = .ok before)
    (htext : '\r' ∉ text.toList) (o : Outside) (k : Saving) :
    (s.step o k.action).files.readText path = .ok (text ++ "\n") ∧ Shows (s.step o k.action) path text := by
  obtain ⟨names, c, hplace, -⟩ := Files.readText_eq_ok hread
  have hpath : path ≠ "" := (Files.locate_eq_ok hplace).1.2.1
  have hreturn : '\r' ∉ (text ++ "\n").toList := by simpa using htext
  obtain ⟨fs, hwrite, hback⟩ := Files.readText_writeText ⟨"", _, Files.writeText_of_file hplace ""⟩ hreturn
  have hshows : Shows { s with written := [], guide := [], marks := [], events := [], failure := none }
    path text := ⟨h.file, h.buffer⟩
  rw [← hback]
  cases k with
  | save =>
    obtain ⟨hfiles, hafter⟩ := run_saveFile o hshows hpath hwrite
    exact ⟨by rw [← hfiles]; rfl, hafter⟩
  | run =>
    obtain ⟨hfiles, hafter⟩ := run_withSaved o _ _ (files_runFile_transpileFile o path · |>.1) hshows hpath hwrite
    exact ⟨by rw [← hfiles]; rfl, hafter⟩
  | transpile =>
    obtain ⟨hfiles, hafter⟩ := run_withSaved o _ _ (files_runFile_transpileFile o path · |>.2) hshows hpath hwrite
    exact ⟨by rw [← hfiles]; rfl, hafter⟩

/-! ## Rounds -/

/-- A round: the file is opened, and then saved any number of times. -/
abbrev Round := Outside × List (Outside × Saving)

def Session.save (s : Session) (savings : List (Outside × Saving)) : Session :=
  savings.foldl (fun s x => s.step x.1 x.2.action) s

def Session.round (path : String) (s : Session) (r : Round) : Session :=
  (s.step { r.1 with openPath := path } .openFile).save r.2

theorem save_shows (h : Shows s path text) {before : String} (hread : s.files.readText path = .ok before)
    (htext : '\r' ∉ text.toList) (savings : List (Outside × Saving)) :
    (s.save savings).files.readText path = .ok (if savings = [] then before else text ++ "\n") := by
  induction savings generalizing s before with
  | nil => exact hread
  | cons x savings ih =>
    obtain ⟨hafter, hshows⟩ := saving_step h hread htext x.1 x.2
    refine (ih hshows hafter).trans ?_
    simp

theorem open_shows (o : Outside) (h : s.files.readText path = .ok text) (hpath : path ≠ "") :
    (s.step { o with openPath := path } .openFile).files = s.files ∧
      Shows (s.step { o with openPath := path } .openFile) path text := by
  simp only [Session.step, act, openFile, beq_iff_eq, hpath, if_false, StateT.run_bind, StateT.run_get,
    pure_bind, h]
  exact ⟨rfl, rfl, rfl⟩

def lineFeeds (n : Nat) : String := String.ofList (List.replicate n '\n')

theorem readText_round (r : Round) (h : s.files.readText path = .ok text) :
    (s.round path r).files.readText path = .ok (text ++ lineFeeds (if r.2 = [] then 0 else 1)) := by
  obtain ⟨names, c, hplace, -⟩ := Files.readText_eq_ok h
  obtain ⟨hfiles, hshows⟩ := open_shows r.1 h (Files.locate_eq_ok hplace).1.2.1
  rw [Session.round, save_shows hshows (by rw [hfiles, h]) (Files.not_mem_of_readText h)]
  split
  · simp [lineFeeds]
  · rfl

/-- **Each round that saves adds one line feed;** the others leave the file as it was. -/
theorem readText_rounds (s : Session) (path text : String) (h : s.files.readText path = .ok text)
    (rounds : List Round) :
    let saved := (rounds.foldl (Session.round path) s).files.readText path
    saved = .ok (text ++ lineFeeds (rounds.countP (·.2 ≠ []))) ∧
      (saved = .ok text ↔ ∀ r ∈ rounds, r.2 = []) := by
  have hsaved : (rounds.foldl (Session.round path) s).files.readText path =
      .ok (text ++ lineFeeds (rounds.countP (·.2 ≠ []))) := by
    induction rounds generalizing s text with
    | nil => simpa [lineFeeds] using h
    | cons r rounds ih =>
      refine (ih _ _ (readText_round r h)).trans ?_
      rw [List.countP_cons, String.append_assoc, lineFeeds, lineFeeds, ← String.ofList_append,
        List.replicate_append_replicate]
      simp [lineFeeds, Nat.add_comm]
  refine ⟨hsaved, ?_⟩
  rw [hsaved]
  simp [lineFeeds, ← String.toList_inj]

def oneFile : Session := .ofFiles ⟨[(["a"], .file (.text "x"))], [], [], false⟩

theorem readText_two_rounds :
    let o : Outside := ⟨"", .timedOut, ⟨none, none, none, none⟩, false, "", "", none⟩
    oneFile.files.readText "a" = .ok "x" ∧
      ([(o, [(o, .save)]), (o, [(o, .run)])].foldl (Session.round "a") oneFile).files.readText "a" =
        .ok ("x" ++ lineFeeds 2) := by
  have h : oneFile.files.readText "a" = .ok "x" := rfl
  exact ⟨h, (readText_rounds _ _ _ h _).1⟩

theorem readText_saved_ne :
    let o : Outside := ⟨"", .timedOut, ⟨none, none, none, none⟩, false, "", "", none⟩
    oneFile.files.readText "a" = .ok "x" ∧
      (oneFile.round "a" (o, [(o, .save)])).files.readText "a" = .ok "x\n" :=
  ⟨rfl, rfl⟩

end ScriptWorkbench.Editor
