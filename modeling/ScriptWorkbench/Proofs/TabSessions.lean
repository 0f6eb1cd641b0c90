/-
Sessions at the tab bar (`careful_session_keeps_books`).

A close that takes away another tab than the last one always leaves the books wrong, and the next automatic
save then writes texts into the files of their neighbours.
-/
import ScriptWorkbench.Proofs.TabBooks

namespace ScriptWorkbench.Studio

open List

/-! ## What saving writes -/

/-- The files after a text was written to its own one; a text that was never saved has none. -/
def Record.putHome (fs : Files) (r : Record) : Files :=
  match r.home with
  | none => fs
  | some path => putText fs path r.text

def Ledger.putAll (l : Ledger) (fs : Files) : Files := l.foldl Record.putHome fs

def Record.putChosen (fs : Files) (o : Outside) (r : Record) : Files :=
  if r.home = none ∧ o.savePath ≠ "" then putText fs o.savePath r.text else r.putHome fs

def Session.front? (s : Session) (l : Ledger) : Option Record := s.window.current.bind (l[·]?)

section Writing

variable [Toolkit] {s : Session} {l : Ledger}

theorem autosaveTab_spec (s : Session) (place : Nat) {tab : Tab} {r : Record}
    (hat : s.window.paths.at? place = r.home) (htext : tab.view.contents = r.text) :
    ((autosaveTab place tab).run s).2.window = s.window ∧
      ((autosaveTab place tab).run s).2.files = r.putHome s.files := by
  rw [Record.putHome, ← hat, ← htext]
  simp only [autosaveTab, StateT.run_bind, StateT.run_get, pure_bind]
  cases s.window.paths.at? place with
  | none => exact ⟨rfl, rfl⟩
  | some path =>
    simp only [StateT.run_bind, run_write, putText]
    cases s.files.writeText path (String.ofList tab.view.contents) <;> exact ⟨rfl, rfl⟩

theorem autosaveTabs_spec (tabs : List Tab) (place : Nat) (s : Session) (l : Ledger)
    (htexts : tabs.map (·.view.contents) = l.map (·.text))
    (hat : ∀ i, s.window.paths.at? (place + i) = l.home? i) :
    ((autosaveTabs place tabs).run s).2.window = s.window ∧
      ((autosaveTabs place tabs).run s).2.files = l.putAll s.files := by
  induction tabs generalizing place s l with
  | nil =>
    obtain rfl : l = [] := map_eq_nil_iff.1 htexts.symm
    exact ⟨rfl, rfl⟩
  | cons tab tabs ih =>
    cases l with
    | nil => cases htexts
    | cons r l =>
      obtain ⟨htext, hrest⟩ := cons.inj htexts
      obtain ⟨hwindow, hfiles⟩ := autosaveTab_spec s place (hat 0) htext
      have hnext := ih (place + 1) ((autosaveTab place tab).run s).2 l hrest ?_
      · rw [hwindow, hfiles] at hnext
        exact hnext
      · intro i
        rw [hwindow, Nat.add_assoc, Nat.add_comm 1 i]
        exact hat (i + 1)

theorem Books.texts (h : Books s.window l) :
    s.window.tabs.map (·.view.contents) = l.map (·.text) := by
  refine ext_getElem? fun i => ?_
  rw [getElem?_map, getElem?_map]
  cases htab : s.window.tabs[i]? with
  | none => rw [h.record_none htab]; rfl
  | some tab =>
    obtain ⟨r, hr, hfits⟩ := h.exists_record htab
    rw [hr, Option.map_some, Option.map_some, hfits.text]

/-- **An automatic save** leaves the tabs as they are and writes every text to its own file. -/
theorem autosave_spec (h : Books s.window l) (o : Outside) :
    s.window.SameBooks ((autosave o).run s).2.window ∧ ((autosave o).run s).2.files = l.putAll s.files := by
  obtain ⟨hwindow, hfiles⟩ := autosaveTabs_spec s.window.tabs 0 s l h.texts fun i => by
    rw [Nat.zero_add, h.at?_eq]
  refine ⟨?_, hfiles⟩
  change s.window.SameBooks (((autosaveTabs 0 s.window.tabs).run s).2.window.say _)
  rw [hwindow]
  exact s.window.sameBooks_say _

theorem files_saveTo {tab : Tab} (htab : s.window.currentTab? = some tab) (place : Nat)
    (path : String) :
    ((saveTo place path).run s).2.files = putText s.files path tab.view.contents := by
  rw [putText]
  cases hw : s.files.writeText path (String.ofList tab.view.contents) with
  | ok fs => rw [run_saveTo_ok place htab hw]
  | error e =>
    obtain ⟨problem, hrun⟩ := run_saveTo_error place htab hw
    rw [hrun]

theorem files_saveFileAs (t : Theme) {place : Nat} {tab : Tab}
    (hplace : s.window.current = some place) (htab : s.window.currentTab? = some tab) (o : Outside) :
    ((saveFileAs t o).run s).2.files =
      if o.savePath = "" then s.files else putText s.files o.savePath tab.view.contents := by
  obtain ⟨dialog, -, hrun⟩ := run_saveFileAs t s hplace htab (o := o)
  rw [hrun]
  by_cases hpath : o.savePath = ""
  · rw [if_pos hpath, if_pos hpath]
  · rw [if_neg hpath, if_neg hpath]
    exact files_saveTo (s := { s with events := s.events ++ [dialog] }) htab place o.savePath

/-- **A save** writes the text in front to its own file, and only if it has none to a chosen one. -/
theorem files_saveFile (t : Theme) (h : Books s.window l) (o : Outside) :
    ((saveFile t o).run s).2.files =
      match s.front? l with
      | some r => r.putChosen s.files o
      | none => s.files := by
  rw [run_saveFile, Session.front?]
  cases hplace : s.window.current with
  | none => rfl
  | some place =>
    rw [Option.bind_some]
    have htab : s.window.currentTab? = s.window.tabs[place]? := by
      rw [Window.currentTab?, hplace, Option.bind_some]
    dsimp only
    rw [h.at?_eq, Ledger.home?]
    cases hat : s.window.tabs[place]? with
    | none =>
      rw [h.record_none hat, Option.bind_none]
      rw [run_saveFileAs_none t s (htab.trans hat)]
    | some tab =>
      obtain ⟨r, hr, hfits⟩ := h.exists_record hat
      rw [hr, Option.bind_some]
      dsimp only
      rw [Record.putChosen, Record.putHome, ← hfits.text]
      cases r.home with
      | some path => exact files_saveTo (htab.trans hat) place path
      | none =>
        rw [files_saveFileAs t hplace (htab.trans hat)]
        by_cases hpath : o.savePath = "" <;> simp [hpath]

end Writing

/-! ## Steps -/

def Action.isTabWork : Action → Bool
  | .runFile | .quit => false
  | _ => true

section

variable [Toolkit]

/-- Care at the tab bar. -/
structure Careful (t : Theme) (o : Outside) (a : Action) (s : Session) : Prop where
  target : TargetFits o s (s.step t o a).2
  last : ∀ place, a = .close place →
    (s.step t o a).2.window.tabs.length < s.window.tabs.length → place.toNat + 1 = s.window.tabs.length

variable {s : Session} {l : Ledger} {o : Outside} {a : Action} (t : Theme)

theorem sameBooks_showOutput (c : Content) (w : Window) : w.SameBooks (showOutput c w) := by
  rw [showOutput]
  split
  · exact w.sameBooks_say _
  · exact Window.sameBooks_of_eq rfl rfl

theorem sameBooks_showErrors (c : Content) (w : Window) : w.SameBooks (showErrors c w) := by
  rw [showErrors]
  split
  · exact w.sameBooks_say _
  · exact Window.sameBooks_of_eq rfl rfl

theorem sameBooks_showEnd (code : Int) (normal : Bool) (w : Window) :
    w.SameBooks (showEnd code normal w) :=
  (w.sameBooks_say _).trans (Window.sameBooks_of_eq rfl rfl)

theorem sameBooks_showFailure (name : String) (w : Window) : w.SameBooks (showFailure name w) := by
  rw [showFailure]
  cases failureText name with
  | none => exact Window.sameBooks_of_eq rfl rfl
  | some text => exact (w.sameBooks_say _).trans (Window.sameBooks_of_eq rfl rfl)

theorem books_step_close (h : Books s.window l) {place : Int}
    (hfit : TargetFits o s (s.step t o (.close place)).2) :
    Books (s.step t o (.close place)).2.window
        (ledgerStep o (.close place) s (s.step t o (.close place)).2 l) ↔
      ((s.step t o (.close place)).2.window.tabs.length < s.window.tabs.length →
        place.toNat + 1 = s.window.tabs.length) := by
  let fresh := { s with events := [], printed := "" }
  rw [ledgerStep]
  by_cases hplace : 0 ≤ place
  · have hstep : (s.step t o (.close place)).2 = ((closeTab t o place.toNat).run fresh).2 := by
      change ((atPlace place (closeTab t o)).run fresh).2 = _
      rw [atPlace, if_pos hplace]
    rw [if_pos hplace]
    exact books_closeTab (s := fresh) t h hstep hfit
  · have hstep : (s.step t o (.close place)).2 = fresh := by
      change ((atPlace place (closeTab t o)).run fresh).2 = _
      rw [atPlace, if_neg hplace]
      rfl
    rw [if_neg hplace, hstep]
    exact iff_of_true h fun hlt => absurd hlt (Nat.lt_irrefl _)

/-- **One careful action keeps the books right.** -/
theorem books_step (h : Books s.window l) (hwork : a.isTabWork = true) (hcare : Careful t o a s) :
    Books (s.step t o a).2.window (ledgerStep o a s (s.step t o a).2 l) := by
  let fresh := { s with events := [], printed := "" }
  cases a with
  | newFile => exact books_newFile t h
  | openFile => exact books_openFile (s := fresh) t h o
  | openPath path => exact books_openPath (s := fresh) t h path
  | openListed path => exact books_openListed (s := fresh) t h path
  | openFolder =>
    refine h.congr ?_
    change s.window.SameBooks ((openFolder o).run fresh).2.window
    rw [openFolder]
    split <;> exact Window.sameBooks_of_eq rfl rfl
  | saveFile => exact books_saveFile (s := fresh) t h hcare.target
  | saveFileAs => exact books_saveFileAs (s := fresh) t h hcare.target
  | autosave => exact h.congr (autosave_spec (s := fresh) h o).1
  | runFile | quit => cases hwork
  | currentPath | scroll textRange value range | clickMinimap y textRange | find => exact h
  | edit place text =>
    change Books ((atPlace place fun n => adjust (·.edit n text)).run fresh).2.window
      (if 0 ≤ place then l.edited place.toNat (Toolkit.returned text.toList) else l)
    rw [atPlace]
    split
    · exact h.edit place.toNat text
    · exact h
  | select place =>
    refine h.congr ?_
    change s.window.SameBooks ((atPlace place fun n => adjust (·.select n)).run fresh).2.window
    rw [atPlace]
    split
    · exact s.window.sameBooks_select place.toNat
    · exact Window.sameBooks_of_eq rfl rfl
  | close place => exact (books_step_close t h hcare.target).2 (hcare.last place rfl)
  | click panel => exact h.congr (s.window.sameBooks_click panel)
  | showSide view => exact h.congr (s.window.sameBooks_showSide view)
  | setSizes side console => exact h.congr (Window.sameBooks_of_eq rfl rfl)
  | showMinimap shown => exact h.congr (s.window.sameBooks_showMinimap shown)
  | showNumbers shown => exact h.congr (s.window.sameBooks_showNumbers shown)
  | showConsole shown => exact h.congr (s.window.sameBooks_showConsole shown)
  | say text => exact h.congr (s.window.sameBooks_say text)
  | programOutput content => exact h.congr (sameBooks_showOutput content s.window)
  | programErrors content => exact h.congr (sameBooks_showErrors content s.window)
  | programEnd code normal => exact h.congr (sameBooks_showEnd code normal s.window)
  | programFailure name => exact h.congr (sameBooks_showFailure name s.window)

/-! ## Sessions -/

/-- The sessions that lead from the start over a file system through actions that are allowed, with
the ledger of what was done. -/
inductive Reaches (t : Theme) (allowed : Outside → Action → Session → Prop) :
    Session → Ledger → Prop where
  | start (fs : Files) : Reaches t allowed (.ofFiles t fs) [⟨Toolkit.given [], none, false⟩]
  | step {s : Session} {l : Ledger} (o : Outside) (a : Action) (hreach : Reaches t allowed s l)
    (hwork : a.isTabWork = true) (hallowed : allowed o a s) :
    Reaches t allowed (s.step t o a).2 (ledgerStep o a s (s.step t o a).2 l)

theorem books_initial : Books (.initial t) [⟨Toolkit.given [], none, false⟩] := by
  exact books_newFile (l := []) t ⟨rfl, fun _ => rfl, fun _ _ _ _ hr => by cases hr⟩

theorem books_of_reaches (hreach : Reaches t (Careful t) s l) : Books s.window l := by
  induction hreach with
  | start fs => exact books_initial t
  | step o a hreach hwork hcare ih => exact books_step t ih hwork hcare

/-- **Careful sessions keep the books right.** Then the table has for every tab the file that its text
was read from or last saved to, every edited text has its mark, an automatic save writes every text to
its own file, and a save writes the text in front to its own one, or else to a chosen one. The care at
closing cannot be spared: a close that takes away a tab keeps the books right only if that tab is the
last one. -/
theorem careful_session_keeps_books (hreach : Reaches t (Careful t) s l) :
    Books s.window l ∧
    (∀ o, (s.step t o .autosave).2.files = l.putAll s.files) ∧
    (∀ o, (s.step t o .saveFile).2.files =
      match s.front? l with
      | some r => r.putChosen s.files o
      | none => s.files) ∧
    ∀ o place, TargetFits o s (s.step t o (.close place)).2 →
      (Books (s.step t o (.close place)).2.window
          (ledgerStep o (.close place) s (s.step t o (.close place)).2 l) ↔
        ((s.step t o (.close place)).2.window.tabs.length < s.window.tabs.length →
          place.toNat + 1 = s.window.tabs.length)) := by
  have hbooks := books_of_reaches t hreach
  refine ⟨hbooks, fun o => ?_, fun o => ?_, fun o place hfit => books_step_close t hbooks hfit⟩
  · exact (autosave_spec (s := { s with events := [], printed := "" }) hbooks o).2
  · exact files_saveFile (s := { s with events := [], printed := "" }) t hbooks o

theorem careful_of_quiet (hquiet : (s.step t o a).2.events.any Event.isTarget = false)
    (hclose : ∀ place, a ≠ .close place) : Careful t o a s where
  target htarget := absurd htarget (by rw [hquiet]; exact Bool.false_ne_true)
  last place heq := absurd heq (hclose place)

end

def shortFiles : Files where
  entries := [(["work"], .directory), (["work", "a.txt"], .file (.text "A")),
    (["work", "b.txt"], .file (.text "B"))]
  cwd := ["work"]
  home := ["home"]
  adrift := false

attribute [local instance] Toolkit.standard

/-- Two files are opened, both texts are edited, and the last tab is closed without saving. -/
theorem careful_session_keeps_books_closing_edited_tab :
    ∃ s l, Reaches default (Careful default) s l ∧ Books s.window l ∧
      s.window.paths = [(0, none), (1, some "a.txt")] ∧
      l = [⟨[], none, false⟩, ⟨['C'], some "a.txt", true⟩] ∧
      ∀ o, (s.step default o .autosave).2.files = l.putAll s.files := by
  have hstart : Reaches default (Careful default) _ _ := .start shortFiles
  have hopened := (hstart.step default (.openPath "a.txt") rfl
      (careful_of_quiet default (by decide +kernel) fun _ h => by cases h)).step default
    (.openPath "b.txt") rfl (careful_of_quiet default (by decide +kernel) fun _ h => by cases h)
  have hedited := (hopened.step default (.edit 1 "C") rfl
      (careful_of_quiet default (by decide +kernel) fun _ h => by cases h)).step default
    (.edit 2 "D") rfl (careful_of_quiet default (by decide +kernel) fun _ h => by cases h)
  have hclosed := hedited.step { (default : Outside) with reply := .discard } (.close 2) rfl
    ⟨by unfold TargetFits; decide +kernel, fun place heq _ => by cases heq; decide +kernel⟩
  obtain ⟨hbooks, hautosave, -⟩ := careful_session_keeps_books default hclosed
  exact ⟨_, _, hclosed, hbooks, by decide +kernel, by decide +kernel, hautosave⟩

/-- **Closing another tab than the last one mixes the files up.** The two texts stand at the places 0
and 1 then and their files at 1 and 2, so an automatic save writes the second text into the first
file. A tab also takes the path of a file that could not be written. -/
theorem books_wrong_after_closing_first_tab :
    (∃ s l, Reaches default (fun _ _ _ => True) s l ∧ ¬Books s.window l ∧
      l = [⟨['A'], some "a.txt", false⟩, ⟨['B'], some "b.txt", false⟩] ∧
      s.window.paths = [(1, some "a.txt"), (2, some "b.txt")] ∧
      ((s.step default default .autosave).2.files.content "a.txt").toOption = some (.text "B")) ∧
    ∃ s l, Reaches default (fun _ _ _ => True) s l ∧ ¬Books s.window l ∧
      l = [⟨['C'], none, true⟩] ∧ s.window.paths = [(0, some "nowhere/c.txt")] := by
  have hstart : Reaches default (fun _ _ _ => True) _ _ := .start shortFiles
  constructor
  · have hclosed := ((hstart.step default (.openPath "a.txt") rfl trivial).step default
      (.openPath "b.txt") rfl trivial).step default (.close 0) rfl trivial
    refine ⟨_, _, hclosed, fun hbooks => ?_, by decide +kernel, by decide +kernel, by decide +kernel⟩
    exact absurd (hbooks.entry 0) (by decide +kernel)
  · have hnamed := (hstart.step default (.edit 0 "C") rfl trivial).step
      { (default : Outside) with savePath := "nowhere/c.txt" } .saveFileAs rfl trivial
    refine ⟨_, _, hnamed, fun hbooks => ?_, by decide +kernel, by decide +kernel⟩
    exact absurd (hbooks.entry 0) (by decide +kernel)

end ScriptWorkbench.Studio
