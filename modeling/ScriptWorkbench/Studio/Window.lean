/-
The window of the studio. A table gives the path of the file at each place of the tab bar.
-/
import ScriptWorkbench.Studio.CodeView

namespace ScriptWorkbench.Studio

/-! ## State -/

/-- A tab. Its slot is the place where it was first put, which its edits mark. -/
structure Tab where
  view : CodeView
  title : String
  slot : Nat
  minimapShown : Bool
  minimapText : List Char
deriving Repr, DecidableEq, Inhabited

/-- The paths of the files, by the places of the tabs. -/
abbrev PathTable := List (Nat × Option String)

/-- The panels at the side. -/
inductive Panel where
  | explorer
  | search
  | versions
  | debugger
  | plugins
deriving Repr, DecidableEq, Inhabited

def Panel.view : Panel → String
  | .explorer => "explorer"
  | .search => "search"
  | .versions => "git"
  | .debugger => "debug"
  | .plugins => "plugins"

/-- The window with its tabs, its table of paths and its panels. -/
structure Window where
  title : String
  tabs : List Tab
  current : Option Nat
  paths : PathTable
  console : String
  consoleShown : Bool
  explorerShown : Bool
  label : String
  root : Option String
  numbersChecked : Bool
  minimapChecked : Bool
  consoleChecked : Bool
  pressed : List Panel
  sideSizes : List Int
  consoleSizes : List Int
  running : Bool
deriving Repr, DecidableEq, Inhabited

def windowWidth : Int := 1200

def windowHeight : Int := 700

def untitled : String := "Sin título"

/-! ## Marks of change -/

def isMarked (title : String) : Bool :=
  title.toList.getLast? == some '*'

def withMark (title : String) : String :=
  if isMarked title then title else title ++ "*"

def withoutMark (title : String) : String :=
  String.ofList (Text.dropEndWhile (· == '*') title.toList)

/-! ## Paths -/

namespace PathTable

def at? (t : PathTable) (place : Nat) : Option String :=
  (t.lookup place).join

def enter (place : Nat) (path : Option String) : PathTable → PathTable
  | [] => [(place, path)]
  | (p, q) :: rest => if p = place then (p, path) :: rest else (p, q) :: enter place path rest

/-- The entry of a closed place goes, but those behind it keep their numbers although the tabs move up. -/
def erase (place : Nat) (t : PathTable) : PathTable :=
  t.filter (·.1 != place)

def placeOf? (t : PathTable) (path : String) : Option Nat :=
  (t.find? fun e => e.2 == some path).map (·.1)

end PathTable

namespace Window

variable [Toolkit]

/-! ## Tabs -/

def currentTab? (w : Window) : Option Tab :=
  w.current.bind (w.tabs[·]?)

def currentPath? (w : Window) : Option String :=
  w.current.bind w.paths.at?

def titleAt (w : Window) (place : Nat) : String :=
  ((w.tabs[place]?).map (·.title)).getD ""

def changeTab (w : Window) (place : Nat) (f : Tab → Tab) : Window :=
  { w with tabs := w.tabs.modify place f }

def changeCurrent (w : Window) (f : Tab → Tab) : Window :=
  match w.current with
  | some place => w.changeTab place f
  | none => w

def setTitle (w : Window) (place : Nat) (title : String) : Window :=
  w.changeTab place fun t => { t with title }

def syncMenu (w : Window) : Window :=
  match w.currentTab? with
  | some t => { w with numbersChecked := t.view.numbered, minimapChecked := t.minimapShown }
  | none => w

def bringForward (w : Window) (place : Option Nat) : Window :=
  if w.current = place then w else { w with current := place }.syncMenu

def select (w : Window) (place : Nat) : Window :=
  if place < w.tabs.length then w.bringForward (some place) else w

def addTab (w : Window) (view : CodeView) (title : String) (path : Option String) : Window :=
  let place := w.tabs.length
  let view := { view with numbered := view.numbered && w.numbersChecked }
  let tab : Tab := ⟨view, title, place, w.minimapChecked, view.contents⟩
  let w := { w with tabs := w.tabs ++ [tab] }.select place
  { w with paths := w.paths.enter place path }

def removeTab (w : Window) (place : Nat) : Window :=
  if place < w.tabs.length then
    { w with tabs := w.tabs.eraseIdx place }.bringForward
      (Toolkit.front place (w.tabs.length - 1) w.current)
  else w

def dropTab (w : Window) (place : Nat) : Window :=
  let w := w.removeTab place
  { w with paths := w.paths.erase place }

def markTab (w : Window) (place : Nat) : Window :=
  w.setTitle place (withMark (w.titleAt place))

/-- Do what is due when the text at a place is reported as changed: look for faults in it, show it in the
minimap, and mark the tab at the place where it was first put. -/
def report (w : Window) (place : Nat) : Window :=
  match w.tabs[place]? with
  | none => w
  | some t =>
    (w.changeTab place fun t => { t with view := t.view.detect, minimapText := t.view.contents }).markTab
      t.slot

def edit (w : Window) (place : Nat) (text : String) : Window :=
  (w.changeTab place fun t => { t with view := t.view.setText text }).report place

/-- Give the text at a place the name, the path and the language of a file. -/
def rename (t : Theme) (place : Nat) (path : String) (w : Window) : Window :=
  let w := w.setTitle place (Path.lastPart path)
  let w := { w with paths := w.paths.enter place (some path) }
  w.changeTab place fun tab => { tab with view := tab.view.setLanguage t (some path) }

/-- With its language a text changes its colours. -/
def adopt (t : Theme) (place : Nat) (path : String) (w : Window) : Window :=
  let w := w.rename t place path
  if Toolkit.reportsColours then w.report place else w

/-! ## Panels -/

def say (w : Window) (text : String) : Window :=
  if text = "" then w
  else { w with console := if w.console = "" then text else w.console ++ "\n" ++ text }

def showConsole (w : Window) (shown : Bool) : Window :=
  let w := { w with consoleChecked := shown, consoleShown := shown }
  if shown && w.consoleSizes.getD 1 0 < 10 then
    { w with consoleSizes := [windowHeight - 200, 200] }
  else w

def hideExplorer (w : Window) : Window :=
  { w with explorerShown := false, pressed := w.pressed.filter (· != .explorer) }

/-- Ask for a view at the side. Only the file explorer exists: asking for it shows or hides it, and
asking for anything else hides it. -/
def showSide (w : Window) (view : String) : Window :=
  if w.explorerShown then w.hideExplorer
  else if view = Panel.explorer.view then
    let w := { w with explorerShown := true }
    if w.sideSizes.getD 0 0 < 50 then { w with sideSizes := [250, windowWidth - 250] } else w
  else w

/-- Click a button at the side. A button that goes down lets the others up; a button that goes up
asks for no view. -/
def click (w : Window) (p : Panel) : Window :=
  if w.pressed.contains p then { w with pressed := w.pressed.filter (· != p) }.showSide ""
  else { w with pressed := [p] }.showSide p.view

def openFolder (w : Window) (path : String) : Window :=
  let name := Path.lastPart path
  { w with
    root := some path
    label := "PROJECT: " ++ Text.upper name
    title := "PyCode - " ++ name
    explorerShown := true
    pressed := if w.pressed.contains .explorer then w.pressed else .explorer :: w.pressed }

def showMinimap (w : Window) (shown : Bool) : Window :=
  { w with minimapChecked := shown }.changeCurrent fun t => { t with minimapShown := shown }

def showNumbers (w : Window) (shown : Bool) : Window :=
  { w with numbersChecked := shown }.changeCurrent fun t =>
    { t with view := { t.view with numbered := shown } }

def newFile (t : Theme) (w : Window) : Window :=
  w.addTab (.ofPath t none) untitled none

def consoleGreeting : String :=
  "Consola de salida iniciada. (Ctrl+` para mostrar/ocultar)"

def initial (t : Theme) : Window :=
  newFile t {
    title := "Visual Code Edit", tabs := [], current := none, paths := []
    console := consoleGreeting, consoleShown := false, explorerShown := false
    label := "EXPLORER", root := none
    numbersChecked := true, minimapChecked := true, consoleChecked := false
    pressed := [], sideSizes := [250, 950], consoleSizes := [500, 200], running := false }

end Window

end ScriptWorkbench.Studio
