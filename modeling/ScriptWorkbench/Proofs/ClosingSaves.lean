/-
What becomes of a changed text when its tab is closed (`closing_saves`).

A tab that has taken the path of a file that cannot be written loses its mark and goes as if it had been
saved, unless it gets a mark again: from the name itself, or from a window system that reports the new colours
of the text as a change. What has been written is kept in a log, as a later save may write to the same file
again.
-/
import ScriptWorkbench.Proofs.TabSessions

namespace ScriptWorkbench.Studio

open List

variable {w w' w'' : Window} {place i : Nat} {tab : Tab}

namespace Window

/-- Tab and path at a place are the same. -/
def SameAt (w w' : Window) (place : Nat) : Prop :=
  w'.tabs[place]? = w.tabs[place]? ∧ w'.paths.lookup place = w.paths.lookup place

/-- Tab and path at a place are the same, but for a mark that the tab may have got. -/
def KeptAt (w w' : Window) (place : Nat) : Prop :=
  (w'.tabs[place]? = w.tabs[place]? ∨
    w'.tabs[place]? = (w.tabs[place]?).map fun tab => { tab with title := withMark tab.title }) ∧
  w'.paths.lookup place = w.paths.lookup place

/-- All places but one are kept. -/
def KeptBut (w w' : Window) (place : Nat) : Prop :=
  w'.tabs.length = w.tabs.length ∧ ∀ i ≠ place, w.KeptAt w' i

theorem SameAt.trans (h : w.SameAt w' i) (h' : w'.SameAt w'' i) : w.SameAt w'' i :=
  ⟨h'.1.trans h.1, h'.2.trans h.2⟩

theorem SameAt.kept (h : w.SameAt w' i) : w.KeptAt w' i := ⟨.inl h.1, h.2⟩

theorem sameAt_refl (w : Window) (i : Nat) : w.SameAt w i := ⟨rfl, rfl⟩

theorem sameAt_select (w : Window) (place i : Nat) : w.SameAt (w.select place) i := by
  rw [SameAt, (w.select_keeps place).1, (w.select_keeps place).2]
  exact ⟨rfl, rfl⟩

theorem withMark_withMark (title : String) : withMark (withMark title) = withMark title := by
  rw [withMark, if_pos (isMarked_withMark title)]

theorem KeptAt.trans (h : w.KeptAt w' i) (h' : w'.KeptAt w'' i) : w.KeptAt w'' i := by
  obtain ⟨htab, hpath⟩ := h
  obtain ⟨htab', hpath'⟩ := h'
  refine ⟨?_, hpath'.trans hpath⟩
  obtain htab | htab := htab <;> obtain htab' | htab' := htab' <;> rw [htab] at htab'
  · exact .inl htab'
  · exact .inr htab'
  · exact .inr htab'
  · refine .inr (htab'.trans ?_)
    rw [Option.map_map]
    simp only [Function.comp_def, withMark_withMark]

/-- A tab that has its mark already is the same. -/
theorem KeptAt.same (h : w.KeptAt w' i) (htab : w.tabs[i]? = some tab) (hmark : isMarked tab.title = true) :
    w.SameAt w' i := by
  refine ⟨?_, h.2⟩
  obtain hsame | hmarked := h.1
  · exact hsame
  · rw [hmarked, htab, Option.map_some, withMark, if_pos hmark]

theorem keptBut_setTitle (w : Window) (place : Nat) (title : String) :
    w.KeptBut (w.setTitle place title) place :=
  ⟨length_modify .., fun _ hi => ⟨.inl (getElem?_modify_ne _ _ hi.symm), rfl⟩⟩

theorem KeptBut.trans (h : w.KeptBut w' place) (h' : w'.KeptBut w'' place) : w.KeptBut w'' place :=
  ⟨h'.1.trans h.1, fun i hi => (h.2 i hi).trans (h'.2 i hi)⟩

theorem keptAt_markTab (w : Window) (place i : Nat) : w.KeptAt (w.markTab place) i := by
  refine ⟨?_, rfl⟩
  rw [markTab, setTitle, changeTab, getElem?_modify, titleAt]
  by_cases hi : place = i
  · subst hi
    refine .inr ?_
    cases w.tabs[place]? <;> simp
  · exact .inl (by simp [hi])

section

variable [Toolkit] (t : Theme)

theorem keptBut_report (w : Window) (place : Nat) : w.KeptBut (w.report place) place := by
  rw [report]
  cases w.tabs[place]? with
  | none => exact ⟨rfl, fun i _ => (w.sameAt_refl i).kept⟩
  | some tab =>
    refine ⟨(length_modify ..).trans (length_modify ..), fun i hi => KeptAt.trans ?_ (keptAt_markTab _ _ i)⟩
    exact ⟨.inl (getElem?_modify_ne _ _ hi.symm), rfl⟩

theorem keptBut_adopt (w : Window) (place : Nat) (path : String) : w.KeptBut (w.adopt t place path) place := by
  have hrename : w.KeptBut (w.rename t place path) place := by
    rw [KeptBut, rename_tabs]
    refine ⟨length_modify .., fun i hi => ⟨.inl ?_, ?_⟩⟩
    · rw [rename_tabs, getElem?_modify_ne _ _ hi.symm]
    · exact (PathTable.lookup_enter ..).trans (if_neg hi)
  rw [adopt]
  split
  · exact hrename.trans (keptBut_report _ place)
  · exact hrename

theorem titleAt_report (htab : w.tabs[place]? = some tab) :
    (w.report place).titleAt place = if tab.slot = place then withMark tab.title else tab.title := by
  rw [report, htab]
  dsimp only
  rw [markTab, setTitle, titleAt, changeTab, getElem?_modify]
  by_cases hslot : tab.slot = place
  · simp [hslot, titleAt, changeTab, htab]
  · simp [hslot, changeTab, htab]

theorem paths_report (w : Window) (place : Nat) : (w.report place).paths = w.paths := by
  rw [report]
  split <;> rfl

theorem at?_adopt (w : Window) (place : Nat) (path : String) :
    (w.adopt t place path).paths.at? place = some path := by
  have hpaths : (w.adopt t place path).paths = w.paths.enter place (some path) := by
    rw [adopt]
    split
    · exact paths_report ..
    · rfl
  rw [PathTable.at?, hpaths, PathTable.lookup_enter, if_pos rfl]
  rfl

/-- A tab that has taken the name of a file is marked by that name, or by a report of its new colours, which
goes to the place where the text was first put. -/
theorem isMarked_adopt (htab : w.tabs[place]? = some tab) (path : String) :
    isMarked ((w.adopt t place path).titleAt place) = true ↔
      isMarked (Path.lastPart path) = true ∨ Toolkit.reportsColours = true ∧ tab.slot = place := by
  have hrenamed : (w.rename t place path).tabs[place]? =
      some { tab with title := Path.lastPart path, view := tab.view.setLanguage t (some path) } := by
    rw [rename_tabs, getElem?_modify_eq, htab]
    rfl
  rw [adopt]
  split
  next hreports =>
    rw [titleAt_report hrenamed]
    by_cases hslot : tab.slot = place
    · simp [hslot, hreports, isMarked_withMark]
    · simp [hslot]
  next hreports => simp [titleAt, hrenamed, hreports]

end

theorem SameAt.at?_eq (h : w.SameAt w' place) : w'.paths.at? place = w.paths.at? place := by
  rw [PathTable.at?, PathTable.at?, h.2]

theorem SameAt.titleAt_eq (h : w.SameAt w' place) : w'.titleAt place = w.titleAt place := by
  rw [titleAt, titleAt, h.1]

theorem exists_tab (h : isMarked (w.titleAt place) = true) :
    ∃ tab, w.tabs[place]? = some tab ∧ w.titleAt place = tab.title := by
  rw [titleAt] at h ⊢
  cases htab : w.tabs[place]? with
  | none => rw [htab] at h; cases h
  | some tab => exact ⟨tab, rfl, rfl⟩

theorem current_select (h : place < w.tabs.length) : (w.select place).current = some place := by
  rw [select, if_pos h, bringForward]
  split
  next hsame => exact hsame
  next =>
    rw [syncMenu]
    split <;> rfl

/-- The file that the text at a place is to be saved to: its own one, or else the chosen one. -/
def target (w : Window) (o : Outside) (place : Nat) : String := (w.paths.at? place).getD o.savePath

theorem SameAt.target_eq (h : w.SameAt w' place) (o : Outside) :
    w'.target o place = w.target o place := by
  rw [target, target, h.at?_eq]

end Window

/-- A text without a file is to be saved to one that is chosen and that cannot be written. -/
structure Lost (fs : Files) (w : Window) (o : Outside) (place : Nat) : Prop where
  unsaved : w.paths.at? place = none
  chosen : o.savePath ≠ ""
  refused : (fs.writeText o.savePath "").isOk = false

theorem Lost.congr {fs : Files} {o : Outside} (hlost : Lost fs w' o place) (h : w.SameAt w' place) :
    Lost fs w o place :=
  ⟨h.at?_eq.symm.trans hlost.unsaved, hlost.chosen, hlost.refused⟩

section

variable [Toolkit] {s s' : Session} {o : Outside} (t : Theme)

/-! ## One save -/

/-- A tab that takes the name of the chosen file is marked then. -/
def Remarked (o : Outside) (place : Nat) (tab : Tab) : Prop :=
  isMarked (Path.lastPart o.savePath) = true ∨ Toolkit.reportsColours = true ∧ tab.slot = place

/-- **What a save of a text can come to:** it is written; or nothing happens; or the chosen file cannot be
written, and the tab takes its name and its path. Other places are left alone but for their marks. -/
def SaveOutcome (o : Outside) (place : Nat) (tab : Tab) (s s' : Session) : Prop :=
  s.window.KeptBut s'.window place ∧
    (s.files.writeText (s.window.target o place) (String.ofList tab.view.contents) = .ok s'.files ∨
      s'.files = s.files ∧ (∀ i, s.window.SameAt s'.window i) ∨
      s'.files = s.files ∧ Lost s.files s.window o place ∧
        (isMarked (s'.window.titleAt place) = true ↔ Remarked o place tab) ∧
        s'.window.paths.at? place = some o.savePath)

theorem saveOutcome_refl (o : Outside) (place : Nat) (tab : Tab) (s : Session) (events : List Event) :
    SaveOutcome o place tab s { s with events } :=
  ⟨⟨rfl, fun i _ => (s.window.sameAt_refl i).kept⟩, .inr (.inl ⟨rfl, s.window.sameAt_refl⟩)⟩

theorem saveOutcome_saveFile (hplace : s.window.current = some place)
    (htab : s.window.tabs[place]? = some tab) : SaveOutcome o place tab s ((saveFile t o).run s).2 := by
  have hfront : s.window.currentTab? = some tab := by rw [Window.currentTab?, hplace]; exact htab
  rw [run_saveFile, hplace]
  dsimp only
  cases hpath : s.window.paths.at? place with
  | some path =>
    dsimp only
    cases hw : s.files.writeText path (String.ofList tab.view.contents) with
    | ok fs =>
      rw [run_saveTo_ok place hfront hw]
      exact ⟨s.window.keptBut_setTitle place _, .inl (by rw [Window.target, hpath]; exact hw)⟩
    | error e =>
      obtain ⟨problem, hrun⟩ := run_saveTo_error place hfront hw
      rw [hrun]
      exact saveOutcome_refl ..
  | none =>
    by_cases hchosen : o.savePath = ""
    · obtain ⟨dialog, -, hrun⟩ := run_saveFileAs (o := o) t s hplace hfront
      rw [hrun]
      rw [if_pos hchosen]
      exact saveOutcome_refl ..
    cases hw : s.files.writeText o.savePath (String.ofList tab.view.contents) with
    | ok fs =>
      obtain ⟨events, hrun⟩ := run_saveFileAs_ok t hplace hfront hchosen hw
      rw [hrun]
      refine ⟨?_, .inl (by rw [Window.target, hpath]; exact hw)⟩
      exact (s.window.keptBut_setTitle place _).trans (Window.keptBut_adopt t _ place o.savePath)
    | error e =>
      obtain ⟨dialog, problem, -, hrun⟩ := run_saveFileAs_error t hplace hfront hchosen hw
      have hrefused : (s.files.writeText o.savePath "").isOk = false := by
        rw [isOk_writeText s.files o.savePath "" (String.ofList tab.view.contents), hw]
        rfl
      rw [hrun]
      exact ⟨s.window.keptBut_adopt t place _, .inr (.inr ⟨rfl, ⟨hpath, hchosen, hrefused⟩,
        Window.isMarked_adopt t htab _, s.window.at?_adopt t place _⟩)⟩

theorem saveOutcome_selected (htab : s.window.tabs[place]? = some tab) (events : List Event) :
    SaveOutcome o place tab s
      ((saveFile t o).run { s with window := s.window.select place, events }).2 := by
  have hselect := s.window.sameAt_select place
  obtain ⟨hbut, hcases⟩ := saveOutcome_saveFile (s := { s with window := s.window.select place, events })
    (o := o) t (Window.current_select (List.getElem?_eq_some_iff.1 htab).1) ((hselect place).1.trans htab)
  have hlength := hbut.1.trans (congrArg length (s.window.select_keeps place).1)
  refine ⟨⟨hlength, fun i hi => (hselect i).kept.trans (hbut.2 i hi)⟩, ?_⟩
  obtain hwritten | ⟨hfiles, hkept⟩ | ⟨hfiles, hlost, hadopted⟩ := hcases
  · rw [(hselect place).target_eq] at hwritten
    exact .inl hwritten
  · exact .inr (.inl ⟨hfiles, fun i => (hselect i).trans (hkept i)⟩)
  · exact .inr (.inr ⟨hfiles, hlost.congr (hselect place), hadopted⟩)

/-! ## Closing the window -/

abbrev SaveLog := List (Nat × String × List Char)

def writeAll (fs : Files) (log : SaveLog) : Except FileError Files :=
  log.foldlM (fun fs entry => fs.writeText entry.2.1 (String.ofList entry.2.2)) fs

omit [Toolkit] in
theorem writeAll_append {fs fs' : Files} {log : SaveLog} (h : writeAll fs log = .ok fs') (log' : SaveLog) :
    writeAll fs (log ++ log') = writeAll fs' log' := by
  rw [writeAll] at h
  rw [writeAll, foldlM_append, h]
  rfl

/-- **What has become of the text at a place** when the session has gone from `s` to `s'` and has written a
log, and `go` tells whether to go on. If the tab was marked and the answer was to save, the text is in the
log; or tab and path are as they were, and it is not gone on; or the chosen file could not be written, the files
being what some part of the log had made of them. Then the tab has its path all the same, and it is not gone on
if the tab was marked again. -/
def Settled (o : Nat → Outside) (log : SaveLog) (s s' : Session) (go : Bool) (place : Nat) : Prop :=
  ∀ tab, s.window.tabs[place]? = some tab → isMarked tab.title = true → (o place).reply = .save →
    (place, s.window.target (o place) place, tab.view.contents) ∈ log ∨
    (s.window.SameAt s'.window place ∧ go = false) ∨
    ∃ earlier fs, earlier <+: log ∧ writeAll s.files earlier = .ok fs ∧ Lost fs s.window (o place) place ∧
      s'.window.paths.at? place = some (o place).savePath ∧ (Remarked (o place) place tab → go = false)

section

variable {o : Nat → Outside} {log log' : SaveLog} {s'' : Session} {go : Bool}

theorem Settled.andThen (h : Settled o log s s' true place) (hkept : s'.window.KeptAt s''.window place) :
    Settled o (log ++ log') s s'' go place := by
  intro tab htab hmark hreply
  obtain hmem | ⟨-, hstop⟩ | ⟨earlier, fs, hprefix, hwrite, hlost, hpath, hgoes⟩ := h tab htab hmark hreply
  · exact .inl (mem_append_left _ hmem)
  · cases hstop
  · refine .inr (.inr ⟨earlier, fs, hprefix.trans (prefix_append ..), hwrite, hlost, ?_, ?_⟩)
    · rwa [PathTable.at?, hkept.2]
    · exact fun hmarked => absurd (hgoes hmarked) (by decide)

theorem Settled.andBefore (hkept : s.window.KeptAt s'.window place) (hlog : writeAll s.files log = .ok s'.files)
    (h : Settled o log' s' s'' go place) : Settled o (log ++ log') s s'' go place := by
  intro tab htab hmark hreply
  have hsame := hkept.same htab hmark
  obtain hmem | ⟨hkept, hstop⟩ | ⟨earlier, fs, hprefix, hwrite, hlost, hpath⟩ :=
    h tab (hsame.1.trans htab) hmark hreply
  · rw [hsame.target_eq] at hmem
    exact .inl (mem_append_right _ hmem)
  · exact .inr (.inl ⟨hsame.trans hkept, hstop⟩)
  · refine .inr (.inr ⟨log ++ earlier, fs, (prefix_append_right_inj log).2 hprefix, ?_, hlost.congr hsame,
      hpath⟩)
    rw [writeAll_append hlog, hwrite]

/-- **One question:** the text is settled, and the other places are left alone. -/
theorem settle_spec (o : Nat → Outside) (hmark : isMarked (s.window.titleAt place) = true) (question : Event) :
    let r := (settle t (o place) place).run
      { s with window := s.window.select place, events := s.events ++ [question] }
    s.window.KeptBut r.2.window place ∧
      ∃ log, writeAll s.files log = .ok r.2.files ∧ Settled o log s r.2 r.1 place := by
  obtain ⟨tab, htab, htitle⟩ := Window.exists_tab hmark
  have hselected : s.window.KeptBut (s.window.select place) place :=
    ⟨by rw [(Window.select_keeps _ _).1], fun i _ => (s.window.sameAt_select place i).kept⟩
  cases hreply : (o place).reply with
  | cancel | discard =>
    simp only [settle, hreply]
    exact ⟨hselected, [], rfl, fun _ _ _ hsave => by rw [hreply] at hsave; cases hsave⟩
  | save =>
    obtain ⟨hbut, hcases⟩ := saveOutcome_selected (o := o place) t htab (s.events ++ [question])
    simp only [settle, hreply]
    refine ⟨hbut, ?_⟩
    obtain hwrite | ⟨hfiles, hkept⟩ | ⟨hfiles, hlost, hmarked, hpath⟩ := hcases
    · refine ⟨[(place, s.window.target (o place) place, tab.view.contents)], ?_,
        fun tab' htab' _ _ => .inl ?_⟩
      · exact congrArg (· >>= pure) hwrite
      · cases htab.symm.trans htab'
        exact mem_singleton_self _
    · refine ⟨[], congrArg Except.ok hfiles.symm, fun _ _ _ _ => .inr (.inl ⟨hkept place, ?_⟩)⟩
      exact (congrArg (!isMarked ·) (hkept place).titleAt_eq).trans (by rw [hmark]; rfl)
    · refine ⟨[], congrArg Except.ok hfiles.symm, fun tab' htab' _ _ =>
        .inr (.inr ⟨[], s.files, prefix_rfl, rfl, hlost, hpath, fun hagain => ?_⟩)⟩
      cases htab.symm.trans htab'
      exact congrArg (!·) (hmarked.2 hagain)

end

theorem run_settleAll_cons (place : Nat) (o : Nat → Outside) (rest : List Nat) (s : Session) :
    ∃ question, (settleAll t o (place :: rest)).run s =
      if isMarked (s.window.titleAt place) then
        let r := (settle t (o place) place).run
          { s with window := s.window.select place, events := s.events ++ [question] }
        if r.1 then (settleAll t o rest).run r.2 else (false, r.2)
      else (settleAll t o rest).run s := by
  refine ⟨.question saveQuestion ("El archivo '" ++ withoutMark (s.window.titleAt place) ++
    "' tiene cambios sin guardar. ¿Deseas guardarlos?"), ?_⟩
  simp only [settleAll, StateT.run_bind, StateT.run_get, pure_bind]
  cases isMarked (s.window.titleAt place) with
  | false => rfl
  | true =>
    change (settle t (o place) place >>= fun go => if go then settleAll t o rest else pure false).run
      { s with window := s.window.select place, events := _ } = _
    rw [StateT.run_bind]
    cases (settle t (o place) place).run
      { s with window := s.window.select place, events := s.events ++ [_] } with
    | mk go s₁ => cases go <;> rfl

/-- **All questions:** the texts at the places are settled, and the other places are left alone. -/
theorem settleAll_spec (o : Nat → Outside) {places : List Nat} (hnodup : places.Nodup) (s : Session) :
    let r := (settleAll t o places).run s
    (∀ i, i ∉ places → s.window.KeptAt r.2.window i) ∧
      ∃ log, writeAll s.files log = .ok r.2.files ∧ ∀ place ∈ places, Settled o log s r.2 r.1 place := by
  induction places generalizing s with
  | nil => exact ⟨fun i _ => (s.window.sameAt_refl i).kept, [], rfl, forall_mem_nil _⟩
  | cons place rest ih =>
    obtain ⟨hplace, hrest⟩ := nodup_cons.1 hnodup
    obtain ⟨question, hrun⟩ := run_settleAll_cons t place o rest s
    rw [hrun]
    cases hmark : isMarked (s.window.titleAt place) with
    | false =>
      obtain ⟨hkept, log, hlog, hall⟩ := ih hrest s
      refine ⟨fun i hi => hkept i (mt (mem_cons_of_mem _) hi), log, hlog,
        forall_mem_cons.2 ⟨fun tab htab hmarked => ?_, hall⟩⟩
      rw [Window.titleAt, htab] at hmark
      cases hmark.symm.trans hmarked
    | true =>
      obtain ⟨hbut, log, hlog, hsettled⟩ := settle_spec t o hmark question
      generalize (settle t (o place) place).run
        { s with window := s.window.select place, events := s.events ++ [question] } = r at hbut hlog hsettled
      have hother : ∀ i ∈ rest, s.window.KeptAt r.2.window i := fun i hi =>
        hbut.2 i fun heq => hplace (heq ▸ hi)
      have hbehind (i : Nat) (hi : i ∉ place :: rest) : s.window.KeptAt r.2.window i :=
        hbut.2 i (ne_of_not_mem_cons hi)
      obtain ⟨go, s₁⟩ := r
      cases go with
      | false =>
        refine ⟨hbehind, log, hlog, forall_mem_cons.2 ⟨hsettled, fun i hi tab htab hmarked _ => ?_⟩⟩
        exact .inr (.inl ⟨(hother i hi).same htab hmarked, rfl⟩)
      | true =>
        obtain ⟨hkept, log', hlog', hall⟩ := ih hrest s₁
        refine ⟨fun i hi => (hbehind i hi).trans (hkept i (mt (mem_cons_of_mem _) hi)), log ++ log',
          by rw [writeAll_append hlog]; exact hlog', forall_mem_cons.2
          ⟨hsettled.andThen (hkept place hplace), fun i hi => (hall i hi).andBefore (hother i hi) hlog⟩⟩

/-- **A changed text that is to be saved is written by closing,** or all tabs and paths stay as they are, unless
the text has no file and the one that is chosen cannot be written. In that case nothing is written, and the tab
takes the path of the file; it stays with it if it is marked again, and goes otherwise. When the window is
closed, the same holds for each of the texts, and if one of them is kept, or marked again, the window stays. -/
theorem closing_saves (s : Session) :
    (∀ place tab (o : Outside), s.window.tabs[place]? = some tab → isMarked tab.title = true →
      o.reply = .save →
      let s' := ((closeTab t o place).run s).2
      s.files.writeText (s.window.target o place) (String.ofList tab.view.contents) = .ok s'.files ∨
      (s'.files = s.files ∧ s'.window.tabs.length = s.window.tabs.length ∧
        ∀ i, s.window.SameAt s'.window i) ∨
      s'.files = s.files ∧ Lost s.files s.window o place ∧
        (Remarked o place tab ∧ s'.window.tabs.length = s.window.tabs.length ∧
            isMarked (s'.window.titleAt place) = true ∧ s'.window.paths.at? place = some o.savePath ∨
          ¬Remarked o place tab ∧ s'.window.tabs.length + 1 = s.window.tabs.length)) ∧
    ∀ o : Nat → Outside,
      let s' := ((quit t o).run s).2
      ∃ go log, s'.events.getLast? = some (if go then .accept else .refuse) ∧
        writeAll s.files log = .ok s'.files ∧ ∀ place, Settled o log s s' go place := by
  constructor
  · intro place tab o htab hmark hreply
    have hlt := (List.getElem?_eq_some_iff.1 htab).1
    have htitle : s.window.titleAt place = tab.title := by rw [Window.titleAt, htab]; rfl
    obtain ⟨question, hrun⟩ := run_closeTab (o := o) t s place
    rw [hrun, htitle, hmark, hreply]
    dsimp only
    rw [if_pos rfl]
    obtain ⟨hbut, hcases⟩ := saveOutcome_selected (o := o) t htab (s.events ++ [question])
    generalize ((saveFile t o).run { s with window := s.window.select place, events := _ }).2 = saved
      at hbut hcases ⊢
    obtain hwrite | ⟨hfiles, hkept⟩ | ⟨hfiles, hlost, hmarked, hpath⟩ := hcases
    · refine .inl ?_
      split <;> exact hwrite
    · rw [(hkept place).titleAt_eq, htitle, if_pos hmark]
      exact .inr (.inl ⟨hfiles, hbut.1, hkept⟩)
    · refine .inr (.inr ⟨by split <;> exact hfiles, hlost, ?_⟩)
      split
      next hagain => exact .inl ⟨hmarked.1 hagain, hbut.1, hagain, hpath⟩
      next hgone =>
        have hlt' : place < saved.window.tabs.length := hbut.1 ▸ hlt
        refine .inr ⟨fun hagain => hgone (hmarked.2 hagain), ?_⟩
        rw [Books.dropTab_tabs hlt', List.length_eraseIdx_of_lt hlt', hbut.1]
        omega
  · intro o
    obtain ⟨-, log, hlog, hall⟩ := settleAll_spec t o (List.nodup_range (n := s.window.tabs.length)) s
    have hrun : ((quit t o).run s).2 =
        let r := (settleAll t o (List.range s.window.tabs.length)).run s
        { r.2 with events := r.2.events ++ [if r.1 then .accept else .refuse] } := by
      simp only [quit, StateT.run_bind, StateT.run_get, pure_bind]
      cases (settleAll t o (List.range s.window.tabs.length)).run s with
      | mk go s₁ => cases go <;> rfl
    rw [hrun]
    refine ⟨_, log, List.getLast?_concat, hlog, fun place tab htab => ?_⟩
    exact hall place (List.mem_range.2 (List.getElem?_eq_some_iff.1 htab).1) tab htab

end

attribute [local instance] Toolkit.standard

def editedTab : Session :=
  (((Session.ofFiles default shortFiles).step default default (.openPath "a.txt")).2.step default default
    (.edit 1 "C")).2

theorem closing_saves_editedTab :
    let s' := ((closeTab default { (default : Outside) with reply := .save } 1).run editedTab).2
    editedTab.files.writeText "a.txt" "C" = .ok s'.files := by
  intro s'
  have htab : (editedTab.window.tabs[1]?).map (fun tab => (isMarked tab.title, tab.view.contents)) =
      some (true, ['C']) := by
    decide +kernel
  obtain ⟨tab, hat, hface⟩ := Option.map_eq_some_iff.1 htab
  obtain ⟨hmark, htext⟩ := Prod.mk.inj hface
  have hcases := (closing_saves default editedTab).1 1 tab { (default : Outside) with reply := .save }
    hat hmark rfl
  have htarget : editedTab.window.target { (default : Outside) with reply := .save } 1 = "a.txt" := by
    decide +kernel
  obtain hwrite | ⟨-, hlength, -⟩ | ⟨-, hlost, -⟩ := hcases
  · rw [htext, htarget] at hwrite
    exact hwrite
  · exact absurd hlength (by decide +kernel)
  · exact absurd hlost.unsaved (by decide +kernel)

/-- **A file that could not be written is recorded.** The text is to be saved in a directory that is not there,
to a file whose name ends like a mark. Nothing is written, whether the window system reports colours or not, and
the tab, or the window, stays; but the tab has the path of that file now. -/
theorem unwritten_path_recorded :
    let s := ((Session.ofFiles default shortFiles).step default default (.edit 0 "C")).2
    let o := { (default : Outside) with reply := .save, savePath := "nowhere/c*" }
    isMarked (s.window.titleAt 0) = true ∧ s.window.paths = [(0, none)] ∧ ∀ reportsColours : Bool,
      letI : Toolkit := .plain reportsColours
      let closed := ((closeTab default o 0).run s).2
      let left := ((quit default fun _ => o).run s).2
      closed.files.entries = s.files.entries ∧ closed.window.paths = [(0, some "nowhere/c*")] ∧
        left.events.getLast? = some .refuse ∧ left.window.paths = [(0, some "nowhere/c*")] := by
  decide +kernel

end ScriptWorkbench.Studio
