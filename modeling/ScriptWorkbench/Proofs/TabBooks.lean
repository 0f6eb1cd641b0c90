/-
The books of the tab bar.

The window keeps the path of a tab's file under the number of the tab's place, and an edit marks the tab at
the place where its text was first put. What is right is said by a ledger that goes with the tabs themselves.
Opening, editing and saving keep the books right; saving does so if the file can be written. Closing a tab
keeps them right exactly if it is the last one, as the entries behind it keep their numbers although the tabs
move up.
-/
import ScriptWorkbench.Studio.Session

namespace ScriptWorkbench.Studio

open List

/-- A title with a mark is marked. -/
theorem isMarked_withMark (title : String) : isMarked (withMark title) = true := by
  rw [withMark]
  split
  next h => exact h
  next =>
    rw [isMarked, String.toList_append, getLast?_append]
    rfl

/-! ## The table of paths -/

namespace PathTable

theorem lookup_entry (p i : Nat) (q : Option String) (t : PathTable) :
    lookup i ((p, q) :: t) = if i = p then some q else t.lookup i := by
  by_cases hi : i = p
  · rw [if_pos hi, hi, lookup_cons_self]
  · have hne : (i == p) = false := by rw [beq_eq_false_iff_ne]; exact hi
    rw [if_neg hi, lookup_cons, hne]

theorem lookup_enter (t : PathTable) (place i : Nat) (path : Option String) :
    (t.enter place path).lookup i = if i = place then some path else t.lookup i := by
  induction t with
  | nil => rw [enter, lookup_entry]
  | cons e t ih =>
    obtain ⟨p, q⟩ := e
    rw [enter]
    by_cases hp : p = place
    · rw [if_pos hp, lookup_entry, lookup_entry, hp]
      by_cases hi : i = place <;> simp [hi]
    · rw [if_neg hp, lookup_entry, lookup_entry, ih]
      by_cases hi : i = p
      · rw [if_pos hi, if_pos hi, if_neg (hi ▸ hp)]
      · rw [if_neg hi, if_neg hi]

theorem lookup_erase (t : PathTable) (place i : Nat) :
    (t.erase place).lookup i = if i = place then none else t.lookup i := by
  induction t with
  | nil => rw [erase, filter_nil, lookup_nil, ite_self]
  | cons e t ih =>
    obtain ⟨p, q⟩ := e
    rw [erase] at ih ⊢
    by_cases hp : p = place
    · rw [filter_cons_of_neg (by simp [hp]), ih, lookup_entry, hp]
      by_cases hi : i = place <;> simp [hi]
    · rw [filter_cons_of_pos (by simp [hp]), lookup_entry, lookup_entry, ih]
      by_cases hi : i = p
      · rw [if_pos hi, if_pos hi, if_neg (hi ▸ hp)]
      · rw [if_neg hi, if_neg hi]

end PathTable

/-! ## The tab in front -/

namespace Window

theorem syncMenu_keeps (w : Window) : w.syncMenu.tabs = w.tabs ∧ w.syncMenu.paths = w.paths := by
  rw [syncMenu]
  split <;> exact ⟨rfl, rfl⟩

theorem bringForward_keeps (w : Window) (place : Option Nat) :
    (w.bringForward place).tabs = w.tabs ∧ (w.bringForward place).paths = w.paths := by
  rw [bringForward]
  split
  · exact ⟨rfl, rfl⟩
  · exact syncMenu_keeps _

theorem select_keeps (w : Window) (place : Nat) :
    (w.select place).tabs = w.tabs ∧ (w.select place).paths = w.paths := by
  rw [select]
  split
  · exact bringForward_keeps w _
  · exact ⟨rfl, rfl⟩

end Window

/-! ## The ledger -/

variable [Toolkit] {place : Nat} {tab : Tab}

/-- What is known of a tab. -/
structure Record where
  text : List Char
  home : Option String
  edited : Bool
deriving Repr, DecidableEq

/-- What is known of all tabs, in order. -/
abbrev Ledger := List Record

namespace Ledger

/-- The file of the text at a place. -/
def home? (l : Ledger) (place : Nat) : Option String := (l[place]?).bind (·.home)

/-- A tab is put behind the others. -/
def opened (l : Ledger) (text : List Char) (home : Option String) : Ledger := l ++ [⟨text, home, false⟩]

/-- The text at a place is changed by the user. -/
def edited (l : Ledger) (place : Nat) (text : List Char) : Ledger :=
  l.modify place fun r => { r with text, edited := true }

/-- The text at a place is written to a file. -/
def saved (l : Ledger) (place : Nat) (path : String) : Ledger :=
  l.modify place fun r => { r with home := some path, edited := false }

end Ledger

/-- The text in front is written to a file, if that can be. -/
def Session.ledgerOfSaveTo (s : Session) (path : String) (l : Ledger) : Ledger :=
  match s.window.current, s.window.currentTab? with
  | some place, some tab =>
    if (s.files.writeText path (String.ofList tab.view.contents)).isOk then l.saved place path
    else l
  | _, _ => l

/-- The text in front is written to the file that is chosen, if one is. -/
def Session.ledgerOfSaveAs (s : Session) (o : Outside) (l : Ledger) : Ledger :=
  if o.savePath = "" then l else s.ledgerOfSaveTo o.savePath l

/-- The text in front is written to its file, or to one that is chosen. -/
def Session.ledgerOfSave (s : Session) (o : Outside) (l : Ledger) : Ledger :=
  match s.window.current.bind l.home? with
  | some path => s.ledgerOfSaveTo path l
  | none => s.ledgerOfSaveAs o l

/-- The text at a place is saved before its tab is closed, if it is marked and the answer is to save. -/
def Session.ledgerOfSettle (s : Session) (o : Outside) (place : Nat) (l : Ledger) : Ledger :=
  if isMarked (s.window.titleAt place) = true ∧ o.reply = .save then
    { s with window := s.window.select place }.ledgerOfSave o l
  else l

/-- A tab is settled, and its record goes with it. -/
def Session.ledgerOfClose (s s' : Session) (o : Outside) (place : Nat) (l : Ledger) : Ledger :=
  if s'.window.tabs.length < s.window.tabs.length then (s.ledgerOfSettle o place l).eraseIdx place
  else s.ledgerOfSettle o place l

/-- The text that a tab gets from a file. -/
def Session.textAt (s : Session) (path : String) : List Char :=
  match s.files.content path with
  | .ok content => Toolkit.returned content.readLenient.toList
  | .error _ => []

/-- A tab with the text of a file is put behind the others, if the file was opened. -/
def Session.ledgerOfOpen (s s' : Session) (path : String) (l : Ledger) : Ledger :=
  if s.window.tabs.length < s'.window.tabs.length then l.opened (s.textAt path) (some path) else l

/-- The ledger after an action that leads from `s` to `s'`. An automatic save does not count as one: it
leaves the marks as they are. -/
def ledgerStep (o : Outside) (a : Action) (s s' : Session) (l : Ledger) : Ledger :=
  match a with
  | .newFile => l.opened (Toolkit.given []) none
  | .openFile => s.ledgerOfOpen s' o.openPath l
  | .openPath path | .openListed path => s.ledgerOfOpen s' path l
  | .edit place text => if 0 ≤ place then l.edited place.toNat (Toolkit.returned text.toList) else l
  | .saveFile => s.ledgerOfSave o l
  | .saveFileAs => s.ledgerOfSaveAs o l
  | .close place => if 0 ≤ place then s.ledgerOfClose s' o place.toNat l else l
  | _ => l

/-- A tab at a place is as its record says. -/
structure Record.Fits (r : Record) (place : Nat) (tab : Tab) : Prop where
  text : tab.view.contents = r.text
  slot : tab.slot = place
  mark : r.edited = true → isMarked tab.title = true

/-- **The books of the window are right:** they say of every tab what the ledger says. -/
structure Books (w : Window) (l : Ledger) : Prop where
  length : l.length = w.tabs.length
  entry : ∀ place, w.paths.lookup place = (l[place]?).map (·.home)
  fits : ∀ (place : Nat) (tab : Tab) (r : Record),
    w.tabs[place]? = some tab → l[place]? = some r → r.Fits place tab

/-- The language of a text is no part of it. -/
theorem CodeView.contents_setLanguage (v : CodeView) (t : Theme) (path : Option String) :
    (v.setLanguage t path).contents = v.contents := by
  rw [setLanguage, setCompleter]
  split <;> rfl

/-! ## What leaves the books alone -/

/-- What the books say something about: the text of a tab, the place that its edits mark, and the words
on the tab. -/
def Tab.face (tab : Tab) : List Char × Nat × String := (tab.view.contents, tab.slot, tab.title)

namespace Window

/-- Two windows with the same table of paths, and with tabs that look the same to the books. -/
def SameBooks (w w' : Window) : Prop := w'.tabs.map Tab.face = w.tabs.map Tab.face ∧ w'.paths = w.paths

theorem SameBooks.trans {w w' w'' : Window} (h : w.SameBooks w') (h' : w'.SameBooks w'') :
    w.SameBooks w'' :=
  ⟨h'.1.trans h.1, h'.2.trans h.2⟩

theorem sameBooks_of_eq {w w' : Window} (htabs : w'.tabs = w.tabs) (hpaths : w'.paths = w.paths) :
    w.SameBooks w' :=
  ⟨by rw [htabs], hpaths⟩

theorem sameBooks_select (w : Window) (place : Nat) : w.SameBooks (w.select place) :=
  sameBooks_of_eq (select_keeps w place).1 (select_keeps w place).2

theorem sameBooks_say (w : Window) (text : String) : w.SameBooks (w.say text) := by
  rw [say]
  split <;> exact sameBooks_of_eq rfl rfl

theorem sameBooks_showConsole (w : Window) (shown : Bool) : w.SameBooks (w.showConsole shown) := by
  rw [showConsole]
  split <;> exact sameBooks_of_eq rfl rfl

theorem sameBooks_showSide (w : Window) (view : String) : w.SameBooks (w.showSide view) := by
  rw [showSide]
  split
  · exact sameBooks_of_eq rfl rfl
  · split
    · dsimp only
      split <;> exact sameBooks_of_eq rfl rfl
    · exact sameBooks_of_eq rfl rfl

theorem sameBooks_click (w : Window) (panel : Panel) : w.SameBooks (w.click panel) := by
  rw [click]
  split <;> exact (sameBooks_of_eq rfl rfl).trans (sameBooks_showSide _ _)

theorem sameBooks_changeTab (w : Window) (place : Nat) {f : Tab → Tab}
    (hf : ∀ tab, (f tab).face = tab.face) : w.SameBooks (w.changeTab place f) := by
  refine ⟨ext_getElem? fun i => ?_, rfl⟩
  rw [changeTab, getElem?_map, getElem?_map, getElem?_modify]
  cases w.tabs[i]? with
  | none => rfl
  | some tab =>
    by_cases hi : place = i
    · simp [hi, hf tab]
    · simp [hi]

theorem sameBooks_changeCurrent (w : Window) {f : Tab → Tab}
    (hf : ∀ tab, (f tab).face = tab.face) : w.SameBooks (w.changeCurrent f) := by
  rw [changeCurrent]
  split
  · exact sameBooks_changeTab w _ hf
  · exact sameBooks_of_eq rfl rfl

theorem sameBooks_showMinimap (w : Window) (shown : Bool) : w.SameBooks (w.showMinimap shown) :=
  (sameBooks_of_eq rfl rfl).trans (sameBooks_changeCurrent _ fun _ => rfl)

theorem sameBooks_showNumbers (w : Window) (shown : Bool) : w.SameBooks (w.showNumbers shown) :=
  (sameBooks_of_eq rfl rfl).trans (sameBooks_changeCurrent _ fun _ => rfl)

end Window

/-! ## What keeps the books right -/

namespace Books

variable {place : Nat}

variable {w w' : Window} {l : Ledger}

/-- The file that the table has for a tab is the one in the ledger. -/
theorem at?_eq (h : Books w l) (place : Nat) : w.paths.at? place = l.home? place := by
  rw [PathTable.at?, h.entry, Ledger.home?]
  cases l[place]? <;> rfl

/-- Every tab has a record. -/
theorem exists_record (h : Books w l) {tab : Tab} (htab : w.tabs[place]? = some tab) :
    ∃ r, l[place]? = some r ∧ r.Fits place tab := by
  have hlt : place < l.length := by
    rw [h.length]
    exact (List.getElem?_eq_some_iff.1 htab).1
  have hr := getElem?_eq_getElem hlt
  exact ⟨l[place], hr, h.fits place tab _ htab hr⟩

theorem record_none (h : Books w l) (htab : w.tabs[place]? = none) :
    l[place]? = none := by
  rw [getElem?_eq_none_iff] at htab ⊢
  rwa [h.length]

/-- The books are about nothing but the faces of the tabs and the table. -/
theorem congr (h : Books w l) (hsame : w.SameBooks w') : Books w' l := by
  obtain ⟨hfaces, hpaths⟩ := hsame
  have hlength := congrArg List.length hfaces
  rw [List.length_map, List.length_map] at hlength
  refine ⟨h.length.trans hlength.symm, fun place => hpaths ▸ h.entry place, ?_⟩
  intro place tab r htab hr
  -- the tab that stood there has the same text, slot and words, and nothing else is asked of it
  have hface := congrArg (·[place]?) hfaces
  simp only [List.getElem?_map, htab] at hface
  obtain ⟨tab', htab', hsame⟩ := Option.map_eq_some_iff.1 hface.symm
  obtain ⟨htext, hslot, htitle⟩ : tab'.view.contents = tab.view.contents ∧
      tab'.slot = tab.slot ∧ tab'.title = tab.title := by
    simpa only [Tab.face, Prod.mk.injEq] using hsame
  have hfits := h.fits place tab' r htab' hr
  exact ⟨htext ▸ hfits.text, hslot ▸ hfits.slot, htitle ▸ hfits.mark⟩

/-- A tab and its record are changed together. -/
theorem modify (h : Books w l) {f : Tab → Tab} {g : Record → Record}
    (htabs : w'.tabs = w.tabs.modify place f)
    (hpaths : ∀ i, w'.paths.lookup i = ((l.modify place g)[i]?).map (·.home))
    (hfits : ∀ tab r, w.tabs[place]? = some tab → r.Fits place tab → (g r).Fits place (f tab)) :
    Books w' (l.modify place g) := by
  refine ⟨?_, hpaths, ?_⟩
  · rw [htabs, length_modify, length_modify, h.length]
  · intro i tab r htab hr
    rw [htabs, getElem?_modify] at htab
    rw [getElem?_modify] at hr
    obtain ⟨tab', htab', rfl⟩ := Option.map_eq_some_iff.1 htab
    obtain ⟨r', hr', rfl⟩ := Option.map_eq_some_iff.1 hr
    -- at the place itself both change, and at any other place neither does
    have hold := h.fits i tab' r' htab' hr'
    by_cases hi : place = i
    · subst hi
      rw [if_pos rfl, if_pos rfl]
      exact hfits tab' r' htab' hold
    · rw [if_neg hi, if_neg hi]
      exact hold

/-- A change of a record that leaves the file alone needs no change of the table. -/
theorem lookup_modify (h : Books w l) {g : Record → Record}
    (hg : ∀ r, l[place]? = some r → (g r).home = r.home) (i : Nat) :
    w.paths.lookup i = ((l.modify place g)[i]?).map (·.home) := by
  rw [h.entry, getElem?_modify]
  cases hr : l[i]? with
  | none => rfl
  | some r =>
    by_cases hi : place = i
    · subst hi
      simp [hg r hr]
    · simp [hi]

theorem lookup_enter_saved (h : Books w l) (hlt : place < w.tabs.length) (path : String) (i : Nat) :
    (w.paths.enter place (some path)).lookup i = ((l.saved place path)[i]?).map (·.home) := by
  rw [PathTable.lookup_enter, h.entry, Ledger.saved, getElem?_modify]
  by_cases hi : i = place
  · subst hi
    rw [getElem?_eq_getElem (h.length ▸ hlt)]
    simp
  · rw [if_neg hi]
    cases l[i]? with
    | none => rfl
    | some r => simp [Ne.symm hi]

/-- **A new tab** at the end, and its file in the table. -/
theorem addTab (h : Books w l) (view : CodeView) (title : String) (path : Option String) :
    Books (w.addTab view title path) (l.opened view.contents path) := by
  obtain ⟨tab, hnew, htabs⟩ : ∃ tab : Tab,
      (⟨view.contents, path, false⟩ : Record).Fits w.tabs.length tab ∧
      (w.addTab view title path).tabs = w.tabs ++ [tab] :=
    ⟨_, ⟨rfl, rfl, Bool.noConfusion⟩, (Window.select_keeps _ _).1⟩
  have hpaths : (w.addTab view title path).paths = w.paths.enter w.tabs.length path :=
    congrArg (PathTable.enter _ path) (Window.select_keeps _ _).2
  refine ⟨?_, fun place => ?_, fun place tab' r htab hr => ?_⟩
  · rw [htabs, Ledger.opened, length_append, length_append, h.length]
    rfl
  · rw [hpaths, PathTable.lookup_enter, h.entry, Ledger.opened]
    obtain hlt | heq | hgt := Nat.lt_trichotomy place w.tabs.length
    · rw [if_neg (Nat.ne_of_lt hlt), getElem?_append_left (h.length ▸ hlt)]
    · rw [if_pos heq, heq, ← h.length, getElem?_concat_length]
      rfl
    · have hlength := h.length
      grind
  · rw [htabs] at htab
    rw [Ledger.opened] at hr
    by_cases hlt : place < w.tabs.length
    · rw [getElem?_append_left hlt] at htab
      rw [getElem?_append_left (h.length ▸ hlt)] at hr
      exact h.fits place tab' r htab hr
    · have hbound := (List.getElem?_eq_some_iff.1 htab).1
      rw [length_append, length_singleton] at hbound
      obtain rfl : place = w.tabs.length := by omega
      rw [getElem?_concat_length] at htab
      rw [← h.length, getElem?_concat_length] at hr
      cases htab
      cases hr
      exact hnew

/-- **A text is reported as changed.** The mark goes where the tab was first put, which is where it is, and
so the ledger may say that the text was edited. -/
theorem report (h : Books w l) (place : Nat) {g : Record → Record}
    (hg : ∀ r, (g r).text = r.text ∧ (g r).home = r.home) : Books (w.report place) (l.modify place g) := by
  rw [Window.report]
  cases htab : w.tabs[place]? with
  | none =>
    rw [modify_eq_self (getElem?_eq_none_iff.1 (h.record_none htab))]
    exact h
  | some tab =>
    obtain ⟨r, hr, hfits⟩ := h.exists_record htab
    let f : Tab → Tab := fun t => { t with view := t.view.detect, minimapText := t.view.contents }
    have htitle : (w.changeTab place f).titleAt place = tab.title := by
      rw [Window.titleAt, Window.changeTab, getElem?_modify_eq, htab]
      rfl
    have htabs : ((w.changeTab place f).markTab tab.slot).tabs =
        w.tabs.modify place fun t => { f t with title := withMark tab.title } := by
      rw [hfits.slot, Window.markTab, htitle]
      exact modify_modify_eq ..
    refine h.modify htabs (h.lookup_modify fun r _ => (hg r).2) fun tab' r' _ hfits' => ?_
    exact ⟨hfits'.text.trans (hg r').1.symm, hfits'.slot, fun _ => isMarked_withMark tab.title⟩

/-- **An edit** of the text at a place. -/
theorem edit (h : Books w l) (place : Nat) (text : String) :
    Books (w.edit place text) (l.edited place (Toolkit.returned text.toList)) := by
  have htext : Books (w.changeTab place fun t => { t with view := t.view.setText text })
      (l.modify place fun r => { r with text := Toolkit.returned text.toList }) :=
    h.modify rfl (h.lookup_modify fun _ _ => rfl) fun _ _ _ hfits => ⟨rfl, hfits.slot, hfits.mark⟩
  have hreport := htext.report place (g := fun r => { r with edited := true }) fun _ => ⟨rfl, rfl⟩
  rwa [modify_modify_eq] at hreport

/-- **A text is saved to its own file,** and the tab loses its mark. -/
theorem setTitle_saved (h : Books w l) {path title : String} (hhome : l.home? place = some path) :
    Books (w.setTitle place title) (l.saved place path) := by
  refine h.modify rfl (h.lookup_modify fun r hr => ?_) fun tab r _ hfits => ?_
  · rw [Ledger.home?, hr] at hhome
    exact hhome.symm
  · exact ⟨hfits.text, hfits.slot, Bool.noConfusion⟩

/-- **A text is saved to another file,** and the tab takes the name and the path of that one. -/
theorem enter_saved (h : Books w l) {path : String} {f : Tab → Tab} (hlt : place < w.tabs.length)
    (htabs : w'.tabs = w.tabs.modify place f) (hpaths : w'.paths = w.paths.enter place (some path))
    (hf : ∀ tab, (f tab).view.contents = tab.view.contents ∧ (f tab).slot = tab.slot) :
    Books w' (l.saved place path) := by
  refine h.modify htabs (fun i => ?_) fun tab r _ hfits => ?_
  · rw [hpaths]
    exact h.lookup_enter_saved hlt path i
  · exact ⟨(hf tab).1.trans hfits.text, (hf tab).2.trans hfits.slot, Bool.noConfusion⟩

/-- Where there is no tab none is taken away. -/
theorem dropTab_of_le (h : Books w l) (hle : w.tabs.length ≤ place) :
    Books (w.dropTab place) l := by
  have hremove : w.removeTab place = w := by rw [Window.removeTab, if_neg (by omega)]
  refine ⟨?_, fun i => ?_, ?_⟩
  · rw [Window.dropTab, hremove]
    exact h.length
  · rw [Window.dropTab, hremove, PathTable.lookup_erase, h.entry]
    by_cases hi : i = place
    · rw [if_pos hi, hi, getElem?_eq_none (by rwa [h.length])]
      rfl
    · rw [if_neg hi]
  · rw [Window.dropTab, hremove]
    exact h.fits

theorem dropTab_tabs (hlt : place < w.tabs.length) :
    (w.dropTab place).tabs = w.tabs.eraseIdx place := by
  rw [Window.dropTab, Window.removeTab, if_pos hlt]
  exact (Window.bringForward_keeps _ _).1

theorem dropTab_lookup (place i : Nat) :
    (w.dropTab place).paths.lookup i = if i = place then none else w.paths.lookup i := by
  rw [Window.dropTab, PathTable.lookup_erase, Window.removeTab]
  split
  · rfl
  · split
    · rw [(Window.bringForward_keeps _ _).2]
    · rfl

omit [Toolkit] in
theorem getElem?_eraseIdx_last {α : Type} {as : List α} (hlast : place + 1 = as.length) (i : Nat) :
    (as.eraseIdx place)[i]? = if i = place then none else as[i]? := by
  rw [getElem?_eraseIdx]
  obtain hlt | rfl | hgt := Nat.lt_trichotomy i place
  · rw [if_pos hlt, if_neg (Nat.ne_of_lt hlt)]
  · rw [if_neg (Nat.lt_irrefl i), if_pos rfl, getElem?_eq_none (by omega)]
  · rw [if_neg (by omega), if_neg (Nat.ne_of_gt hgt), getElem?_eq_none (by omega),
      getElem?_eq_none (by omega)]

/-- **A tab is taken away.** The books stay right exactly if it was the last one. -/
theorem dropTab_iff (h : Books w l) (hlt : place < w.tabs.length) :
    Books (w.dropTab place) (l.eraseIdx place) ↔ place + 1 = w.tabs.length := by
  have hlength := h.length
  constructor
  · intro hbooks
    have hentry := hbooks.entry place
    rw [dropTab_lookup, if_pos rfl, getElem?_eraseIdx, if_neg (Nat.lt_irrefl place)] at hentry
    have hnone : l[place + 1]? = none := Option.map_eq_none_iff.1 hentry.symm
    rw [getElem?_eq_none_iff] at hnone
    omega
  · intro hlast
    refine ⟨?_, fun i => ?_, fun i tab r htab hr => ?_⟩
    · rw [dropTab_tabs hlt, length_eraseIdx_of_lt hlt, length_eraseIdx_of_lt (h.length ▸ hlt), hlength]
    · rw [dropTab_lookup, h.entry, getElem?_eraseIdx_last (hlast.trans hlength.symm)]
      split <;> rfl
    · rw [dropTab_tabs hlt, getElem?_eraseIdx_last hlast, Option.ite_none_left_eq_some] at htab
      rw [getElem?_eraseIdx_last (hlast.trans hlength.symm), Option.ite_none_left_eq_some] at hr
      exact h.fits i tab r htab.2 hr.2

end Books

/-! ## Saving -/

omit [Toolkit] in
/-- Whether a file can be written does not depend on the text. -/
theorem isOk_writeText (fs : Files) (path text text' : String) :
    (fs.writeText path text).isOk = (fs.writeText path text').isOk := by
  rw [Files.writeText, Files.writeText]
  cases fs.locate path with
  | error e => rfl
  | ok found =>
    cases found with
    | occupied names entry => cases entry <;> rfl
    | free names =>
      split <;> rfl
    | removed => rfl

/-- The files with a text written to a path, if that can be. -/
def putText (fs : Files) (path : String) (text : List Char) : Files :=
  match fs.writeText path (String.ofList text) with
  | .ok fs' => fs'
  | .error _ => fs

section Saving

variable {s : Session} {l : Ledger} {o : Outside} (t : Theme)

omit [Toolkit] in
theorem run_write (s : Session) (path : String) (text : List Char) :
    (write path text).run s =
      match s.files.writeText path (String.ofList text) with
      | .ok fs => (.ok (), { s with files := fs })
      | .error e => (.error e, s) := by
  simp only [write, StateT.run_bind, StateT.run_get, pure_bind]
  cases s.files.writeText path (String.ofList text) <;> rfl

/-- Saving that succeeds writes the text and takes the mark away. -/
theorem run_saveTo_ok (place : Nat) {path : String} {fs : Files}
    (htab : s.window.currentTab? = some tab)
    (hw : s.files.writeText path (String.ofList tab.view.contents) = .ok fs) :
    (saveTo place path).run s = ((), { s with
      files := fs, window := s.window.setTitle place (withoutMark (s.window.titleAt place)) }) := by
  simp only [saveTo, StateT.run_bind, StateT.run_get, pure_bind, htab, run_write, hw]
  rfl

/-- Saving that fails reports a problem and does nothing else. -/
theorem run_saveTo_error (place : Nat) {path : String} {e : FileError}
    (htab : s.window.currentTab? = some tab)
    (hw : s.files.writeText path (String.ofList tab.view.contents) = .error e) :
    ∃ problem, (saveTo place path).run s = ((), { s with events := s.events ++ [problem] }) := by
  refine ⟨.problem "Error al Guardar" ("No se pudo guardar el archivo:\n" ++ e.message), ?_⟩
  simp only [saveTo, StateT.run_bind, StateT.run_get, pure_bind, htab, run_write, hw]
  rfl

omit [Toolkit] in
theorem Window.rename_tabs (w : Window) (place : Nat) (path : String) :
    (w.rename t place path).tabs = w.tabs.modify place fun tab =>
      { tab with title := Path.lastPart path, view := tab.view.setLanguage t (some path) } :=
  modify_modify_eq ..

/-- A tab that gets a new language may be reported as changed. -/
theorem Books.adopt {w : Window} {path : String} (h : Books (w.rename t place path) l) :
    Books (w.adopt t place path) l := by
  rw [Window.adopt]
  split
  · have hreport := h.report place (g := id) fun _ => ⟨rfl, rfl⟩
    rwa [modify_id] at hreport
  · exact h

/-- The dialog for the file to write. -/
def Event.isTarget : Event → Bool
  | .chooseTarget .. => true
  | _ => false

omit [Toolkit] in
theorem isTarget_targetDialog (language title : String) :
    (targetDialog language title).isTarget = true := by
  unfold targetDialog
  split <;> rfl

theorem run_saveFileAs (s : Session) (hplace : s.window.current = some place)
    (htab : s.window.currentTab? = some tab) :
    ∃ dialog, dialog.isTarget = true ∧ (saveFileAs t o).run s =
      let asked := { s with events := s.events ++ [dialog] }
      if o.savePath = "" then ((), asked)
      else
        let saved := ((saveTo place o.savePath).run asked).2
        ((), { saved with window := saved.window.adopt t place o.savePath }) := by
  let language := (s.window.paths.at? place).elim tab.view.language fun path => t.languageOf (some path)
  refine ⟨targetDialog language tab.title, isTarget_targetDialog _ _, ?_⟩
  simp only [saveFileAs, StateT.run_bind, StateT.run_get, pure_bind, hplace, htab, language]
  by_cases hpath : o.savePath = ""
  · rw [if_neg fun h => h hpath, if_pos hpath]
    cases s.window.paths.at? place <;> rfl
  · rw [if_pos hpath, if_neg hpath]
    cases s.window.paths.at? place <;> rfl

theorem run_saveFileAs_none (s : Session) (htab : s.window.currentTab? = none) :
    (saveFileAs t o).run s = ((), s) := by
  simp only [saveFileAs, StateT.run_bind, StateT.run_get, pure_bind, htab]
  cases s.window.current <;> rfl

theorem run_saveFileAs_ok {fs : Files} (hplace : s.window.current = some place)
    (htab : s.window.currentTab? = some tab) (hpath : o.savePath ≠ "")
    (hw : s.files.writeText o.savePath (String.ofList tab.view.contents) = .ok fs) :
    ∃ events, (saveFileAs t o).run s = ((), { s with
      files := fs, events
      window := (s.window.setTitle place (withoutMark (s.window.titleAt place))).adopt t place
        o.savePath }) := by
  obtain ⟨dialog, -, hrun⟩ := run_saveFileAs t s hplace htab
  have hsave := run_saveTo_ok (s := { s with events := s.events ++ [dialog] }) place htab hw
  refine ⟨s.events ++ [dialog], ?_⟩
  rw [hrun]
  rw [if_neg hpath, hsave]

theorem run_saveFileAs_error {e : FileError} (hplace : s.window.current = some place)
    (htab : s.window.currentTab? = some tab) (hpath : o.savePath ≠ "")
    (hw : s.files.writeText o.savePath (String.ofList tab.view.contents) = .error e) :
    ∃ dialog problem, dialog.isTarget = true ∧ (saveFileAs t o).run s = ((), { s with
      events := s.events ++ [dialog] ++ [problem]
      window := s.window.adopt t place o.savePath }) := by
  obtain ⟨dialog, hdialog, hrun⟩ := run_saveFileAs t s hplace htab
  obtain ⟨problem, hsave⟩ := run_saveTo_error (s := { s with events := s.events ++ [dialog] }) place htab hw
  refine ⟨dialog, problem, hdialog, ?_⟩
  rw [hrun]
  rw [if_neg hpath, hsave]

/-- A text that has a file is saved to it, and another one where the user chooses. -/
theorem run_saveFile (s : Session) :
    (saveFile t o).run s =
      match s.window.current with
      | none => ((), s)
      | some place =>
        match s.window.paths.at? place with
        | some path => (saveTo place path).run s
        | none => (saveFileAs t o).run s := by
  simp only [saveFile, StateT.run_bind, StateT.run_get, pure_bind]
  cases s.window.current with
  | none => rfl
  | some place =>
    dsimp only
    cases s.window.paths.at? place <;> rfl

/-- If the dialog for the file to write was shown on the way from `s` to `s'` and a file was chosen in
it, that file can be written. -/
def TargetFits (o : Outside) (s s' : Session) : Prop :=
  s'.events.any Event.isTarget = true → o.savePath ≠ "" → (s.files.writeText o.savePath "").isOk = true

theorem ledgerOfSaveTo_eq (hplace : s.window.current = some place)
    (htab : s.window.currentTab? = some tab) (path : String) (l : Ledger) :
    s.ledgerOfSaveTo path l =
      if (s.files.writeText path (String.ofList tab.view.contents)).isOk then l.saved place path
      else l := by
  rw [Session.ledgerOfSaveTo, hplace, htab]

theorem ledgerOfSaveTo_none (htab : s.window.currentTab? = none) (path : String) (l : Ledger) :
    s.ledgerOfSaveTo path l = l := by
  rw [Session.ledgerOfSaveTo, htab]
  cases s.window.current <;> rfl

/-- **Saving to a chosen file keeps the books right** if that file can be written. -/
theorem books_saveFileAs (h : Books s.window l)
    (hfit : TargetFits o s ((saveFileAs t o).run s).2) :
    Books ((saveFileAs t o).run s).2.window (s.ledgerOfSaveAs o l) := by
  rw [Session.ledgerOfSaveAs]
  cases htab : s.window.currentTab? with
  | none =>
    rw [run_saveFileAs_none t s htab, ledgerOfSaveTo_none htab, ite_self]
    exact h
  | some tab =>
    obtain ⟨place, hplace, hat⟩ := Option.bind_eq_some_iff.1 htab
    by_cases hpath : o.savePath = ""
    · obtain ⟨dialog, -, hrun⟩ := run_saveFileAs t s hplace htab
      rw [hrun]
      rw [if_pos hpath, if_pos hpath]
      exact h
    rw [if_neg hpath, ledgerOfSaveTo_eq hplace htab]
    cases hw : s.files.writeText o.savePath (String.ofList tab.view.contents) with
    | ok fs =>
      obtain ⟨events, hrun⟩ := run_saveFileAs_ok t hplace htab hpath hw
      have htabs := ((s.window.setTitle place (withoutMark (s.window.titleAt place))).rename_tabs t place
        o.savePath).trans (modify_modify_eq ..)
      rw [hrun]
      exact (h.enter_saved (List.getElem?_eq_some_iff.1 hat).1 htabs rfl fun tab =>
        ⟨tab.view.contents_setLanguage t _, rfl⟩).adopt t
    | error e =>
      -- the dialog was shown, so the file could have been written
      obtain ⟨dialog, problem, hdialog, hrun⟩ := run_saveFileAs_error t hplace htab hpath hw
      rw [hrun] at hfit
      have hok := hfit (by simp [hdialog]) hpath
      rw [isOk_writeText s.files o.savePath "" (String.ofList tab.view.contents), hw] at hok
      cases hok

/-- **Saving keeps the books right.** A text goes to the file that it came from, and the dialog is shown
for a text without a file only. -/
theorem books_saveFile (h : Books s.window l) (hfit : TargetFits o s ((saveFile t o).run s).2) :
    Books ((saveFile t o).run s).2.window (s.ledgerOfSave o l) := by
  rw [run_saveFile] at hfit ⊢
  rw [Session.ledgerOfSave]
  cases hplace : s.window.current with
  | none =>
    have htab : s.window.currentTab? = none := by rw [Window.currentTab?, hplace]; rfl
    rw [Session.ledgerOfSaveAs, ledgerOfSaveTo_none htab, ite_self]
    exact h
  | some place =>
    rw [hplace] at hfit
    dsimp only at hfit ⊢
    rw [h.at?_eq] at hfit ⊢
    rw [Option.bind_some]
    cases hhome : l.home? place with
    | none =>
      rw [hhome] at hfit
      exact books_saveFileAs t h hfit
    | some path =>
      obtain ⟨r, hr, -⟩ := Option.bind_eq_some_iff.1 hhome
      have hlt : place < s.window.tabs.length := h.length ▸ (List.getElem?_eq_some_iff.1 hr).1
      have htab : s.window.currentTab? = some s.window.tabs[place] := by
        rw [Window.currentTab?, hplace, Option.bind_some, getElem?_eq_getElem hlt]
      dsimp only
      rw [ledgerOfSaveTo_eq hplace htab]
      cases hw : s.files.writeText path (String.ofList s.window.tabs[place].view.contents) with
      | ok fs =>
        rw [run_saveTo_ok place htab hw]
        exact h.setTitle_saved hhome
      | error e =>
        obtain ⟨problem, hrun⟩ := run_saveTo_error place htab hw
        rw [hrun]
        exact h

end Saving

/-! ## Closing -/

section Closing

variable {s : Session} {l : Ledger} {o : Outside} (t : Theme)

/-- A marked tab is asked about. It stays if that is called off, and if it is still marked when it is saved. -/
theorem run_closeTab (s : Session) (place : Nat) :
    ∃ question, (closeTab t o place).run s =
      let asked := { s with events := s.events ++ [question] }
      if isMarked (s.window.titleAt place) then
        match o.reply with
        | .cancel => ((), asked)
        | .discard => ((), { asked with window := s.window.dropTab place })
        | .save =>
          let saved := ((saveFile t o).run { asked with window := s.window.select place }).2
          if isMarked (saved.window.titleAt place) then ((), saved)
          else ((), { saved with window := saved.window.dropTab place })
      else ((), { s with window := s.window.dropTab place }) := by
  let question : Event := .question saveQuestion
    "El archivo tiene cambios sin guardar. ¿Deseas guardarlos antes de cerrar?"
  refine ⟨question, ?_⟩
  simp only [closeTab, StateT.run_bind, StateT.run_get, pure_bind]
  cases hmark : isMarked (s.window.titleAt place) with
  | false => rfl
  | true =>
    cases hreply : o.reply with
    | cancel | discard => simp only [settle, hreply]; rfl
    | save =>
      let saved := ((saveFile t o).run
        { s with events := s.events ++ [question], window := s.window.select place }).2
      simp only [settle, hreply]
      change (if !isMarked (saved.window.titleAt place) then adjust (·.dropTab place)
        else pure () : Act Unit).run saved = if isMarked (saved.window.titleAt place) then ((), saved)
          else ((), { saved with window := saved.window.dropTab place })
      cases isMarked (saved.window.titleAt place) <;> rfl

theorem length_ledgerOfSaveTo (s : Session) (path : String) (l : Ledger) :
    (s.ledgerOfSaveTo path l).length = l.length := by
  unfold Session.ledgerOfSaveTo
  split
  · split
    · exact length_modify ..
    · rfl
  · rfl

theorem length_ledgerOfSettle (s : Session) (o : Outside) (place : Nat) (l : Ledger) :
    (s.ledgerOfSettle o place l).length = l.length := by
  unfold Session.ledgerOfSettle
  split
  · unfold Session.ledgerOfSave Session.ledgerOfSaveAs
    split
    · exact length_ledgerOfSaveTo ..
    · split
      · rfl
      · exact length_ledgerOfSaveTo ..
  · rfl

/-- Up to the moment when the tab is taken away, the books are right. -/
theorem exists_books_beforeDrop (h : Books s.window l)
    (hfit : TargetFits o s ((closeTab t o place).run s).2) :
    ∃ w, Books w (s.ledgerOfSettle o place l) ∧
      (((closeTab t o place).run s).2.window = w ∨
        ((closeTab t o place).run s).2.window = w.dropTab place) := by
  obtain ⟨question, hrun⟩ := run_closeTab t s place
  rw [hrun] at hfit ⊢
  rw [Session.ledgerOfSettle]
  cases hmark : isMarked (s.window.titleAt place) with
  | false => exact ⟨s.window, h, .inr rfl⟩
  | true =>
    rw [hmark] at hfit
    cases hreply : o.reply with
    | cancel => exact ⟨s.window, h, .inl rfl⟩
    | discard => exact ⟨s.window, h, .inr rfl⟩
    | save =>
      rw [hreply] at hfit
      simp only [if_true] at hfit ⊢
      let asked := { s with events := s.events ++ [question], window := s.window.select place }
      have hasked : Books asked.window l := h.congr (s.window.sameBooks_select place)
      have hfitSave : TargetFits o asked ((saveFile t o).run asked).2 := by split at hfit <;> exact hfit
      have hsaved := books_saveFile t hasked hfitSave
      refine ⟨_, hsaved, ?_⟩
      split
      · exact .inl rfl
      · exact .inr rfl

/-- **Closing a tab** keeps the books right if the tab stays after all, or was the last one, and only
then. -/
theorem books_closeTab (h : Books s.window l) {s' : Session}
    (hs' : s' = ((closeTab t o place).run s).2) (hfit : TargetFits o s s') :
    Books s'.window (s.ledgerOfClose s' o place l) ↔
      (s'.window.tabs.length < s.window.tabs.length → place + 1 = s.window.tabs.length) := by
  subst hs'
  obtain ⟨w, hw, hdrop⟩ := exists_books_beforeDrop t h hfit
  have hlength : w.tabs.length = s.window.tabs.length := by
    rw [← hw.length, length_ledgerOfSettle, h.length]
  rw [Session.ledgerOfClose]
  obtain hstays | hgoes := hdrop
  · rw [hstays, if_neg (by omega)]
    exact iff_of_true hw fun hlt => by omega
  · rw [hgoes]
    by_cases hlt : place < w.tabs.length
    · have hless : (w.dropTab place).tabs.length < s.window.tabs.length := by
        rw [Books.dropTab_tabs hlt, length_eraseIdx_of_lt hlt]
        omega
      rw [if_pos hless, hw.dropTab_iff hlt, hlength]
      exact ⟨fun hlast _ => hlast, fun hlast => hlast hless⟩
    · have hbooks := hw.dropTab_of_le (Nat.le_of_not_lt hlt)
      have hsame : ¬(w.dropTab place).tabs.length < s.window.tabs.length := by
        rw [← hbooks.length, hw.length]
        omega
      rw [if_neg hsame]
      exact iff_of_true hbooks fun hlt => absurd hlt hsame

end Closing

/-! ## Opening -/

section Opening

variable {s : Session} {l : Ledger} (t : Theme)

/-- A new tab has an empty text and no file. -/
theorem books_newFile {w : Window} (h : Books w l) :
    Books (w.newFile t) (l.opened (Toolkit.given []) none) := by
  have hempty : (CodeView.ofPath t none).contents = Toolkit.given [] := CodeView.contents_setLanguage _ t none
  have hbooks := h.addTab (.ofPath t none) untitled none
  rwa [hempty] at hbooks

theorem books_unopened (h : Books s.window l) {s' : Session} (hsame : s.window.SameBooks s'.window)
    (path : String) : Books s'.window (s.ledgerOfOpen s' path l) := by
  have hbooks := h.congr hsame
  rw [Session.ledgerOfOpen, if_neg]
  · exact hbooks
  · rw [← h.length, ← hbooks.length]
    exact Nat.lt_irrefl _

theorem run_openPath (s : Session) (path : String) :
    ((openPath t path).run s).2 =
      match s.window.paths.placeOf? path with
      | some place => { s with window := s.window.select place }
      | none =>
        match s.files.content path with
        | .error e =>
          { s with
            events := s.events ++
              [.problem "Error de Apertura" ("No se pudo abrir el archivo:\n" ++ e.message)] }
        | .ok content =>
          { s with
            window := s.window.addTab ((CodeView.ofPath t (some path)).setText content.readLenient)
              (Path.lastPart path) (some path) } := by
  simp only [openPath, StateT.run_bind, StateT.run_get, pure_bind]
  cases s.window.paths.placeOf? path with
  | some place => rfl
  | none =>
    cases s.files.content path <;> rfl

/-- **Opening a file keeps the books right.** -/
theorem books_openPath (h : Books s.window l) (path : String) :
    Books ((openPath t path).run s).2.window (s.ledgerOfOpen ((openPath t path).run s).2 path l) := by
  rw [run_openPath]
  cases s.window.paths.placeOf? path with
  | some place => exact books_unopened h (s.window.sameBooks_select place) path
  | none =>
    cases hcontent : s.files.content path with
    | error e => exact books_unopened h (Window.sameBooks_of_eq rfl rfl) path
    | ok content =>
      have hbooks := h.addTab ((CodeView.ofPath t (some path)).setText content.readLenient)
        (Path.lastPart path) (some path)
      rw [Session.ledgerOfOpen, Session.textAt, hcontent, if_pos]
      · exact hbooks
      · rw [← hbooks.length, ← h.length, Ledger.opened, length_append]
        exact Nat.lt_succ_self _

theorem books_openListed (h : Books s.window l) (path : String) :
    Books ((openListed t path).run s).2.window (s.ledgerOfOpen ((openListed t path).run s).2 path l) := by
  cases hdir : s.files.isDirectory path with
  | true =>
    have hrun : (openListed t path).run s = ((), s) := by
      simp only [openListed, StateT.run_bind, StateT.run_get, pure_bind, hdir]
      rfl
    rw [hrun]
    exact books_unopened h (Window.sameBooks_of_eq rfl rfl) path
  | false =>
    have hrun : ((openListed t path).run s).2 = ((openPath t path).run s).2 := by
      simp only [openListed, StateT.run_bind, StateT.run_get, pure_bind, hdir]
      rfl
    rw [hrun]
    exact books_openPath t h path

theorem run_openFile (s : Session) (o : Outside) :
    ∃ dialog told, ((openFile t o).run s).2 =
      let asked := { s with events := s.events ++ [dialog] }
      if o.openPath = "" then asked
      else
        match s.window.paths.placeOf? o.openPath with
        | some place => { asked with events := asked.events ++ [told], window := s.window.select place }
        | none => ((openPath t o.openPath).run asked).2 := by
  refine ⟨.chooseFile (s.window.root.getD ""), .information "Ya Abierto"
    ("El archivo '" ++ Path.lastPart o.openPath ++ "' ya está abierto."), ?_⟩
  simp only [openFile, StateT.run_bind, StateT.run_get, pure_bind]
  by_cases hpath : o.openPath = ""
  · rw [if_neg fun hne => hne hpath, if_pos hpath]
    rfl
  · rw [if_pos hpath, if_neg hpath]
    cases s.window.paths.placeOf? o.openPath <;> rfl

theorem books_openFile (h : Books s.window l) (o : Outside) :
    Books ((openFile t o).run s).2.window (s.ledgerOfOpen ((openFile t o).run s).2 o.openPath l) := by
  obtain ⟨dialog, told, hrun⟩ := run_openFile t s o
  rw [hrun]
  by_cases hpath : o.openPath = ""
  · rw [if_pos hpath]
    exact books_unopened h (Window.sameBooks_of_eq rfl rfl) o.openPath
  · rw [if_neg hpath]
    cases s.window.paths.placeOf? o.openPath with
    | some place => exact books_unopened h (s.window.sameBooks_select place) o.openPath
    | none => exact books_openPath (s := { s with events := s.events ++ [dialog] }) t h o.openPath

end Opening

end ScriptWorkbench.Studio
