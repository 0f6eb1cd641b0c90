/-
The drawing window.

Scripts draw in one window with one canvas. Every operation answers with the new state, the calls to the
window system, and what it prints. The window system may refuse a call: that ends the operation, and what was
done before stays. Closing the window forgets the window but not the canvas, so a canvas that is set up later
is taken for the old one. The values that scripts hand over can be of any sort: drawing reckons with its
coordinates, and fails when they are no numbers.
-/
import ScriptWorkbench.Json.Call

namespace ScriptWorkbench.Drawing

/-! ## The window system -/

/-- A call to the window system. -/
inductive Call where
  | makeWindow
  | hideWindow
  | showWindow
  | setTitle (title : Json)
  | refresh
  | destroyWindow
  | makeCanvas (width height : Json) (background : String)
  | packCanvas
  | resizeCanvas (width height : Json)
  | oval (left top right bottom : Json) (color : String)
deriving Repr

/-- Which calls the window system refuses, and with what message. -/
abbrev Answers := Call → Option String

/-- Why an operation ended early. -/
inductive Failure where
  | value (error : Json.AccessError)
  | refused (call : Call) (message : String)
deriving Repr

/-- What is known of the window and the canvas, and the two counters. -/
structure State where
  hasWindow : Bool
  hasCanvas : Bool
  running : Bool
  title : Json
  drawCount : Nat
  updateCount : Nat
deriving Repr, Inhabited

def State.initial : State := ⟨false, false, false, .str "", 0, 0⟩

/-- An operation that scripts can ask for. -/
inductive Command where
  | start
  | quit
  | setup (width height title : Json)
  | point (x y color : Json)
  | circle (x y radius color : Json)
  | update
deriving Repr

/-- What an operation leaves behind. The calls are those that were taken; the one that destroys the window is
among them in any case, as nobody asks what became of it. -/
structure Outcome where
  state : State
  calls : List Call
  printed : String
  failure : Option Failure
deriving Repr

/-! ## Colours -/

def background : String := "#2c3e50"

def namedColors : List (String × String) :=
  [("Rojo", "#e74c3c"), ("Verde", "#2ecc71"), ("Azul", "#3498db"), ("Amarillo", "#f1c40f"),
   ("Púrpura", "#9b59b6"), ("Cian", "#1abc9c"), ("Blanco", "#ecf0f1"), ("Negro", "#2c3e50")]

def colorOf (name : Json) : Except Json.AccessError String :=
  name.key.map fun key => (key.str?.bind (namedColors.lookup ·)).getD "#ffffff"

def randomNames : List String :=
  ["Rojo", "Verde", "Azul", "Amarillo", "Púrpura", "Cian"]

/-! ## Operations -/

def unchanged (s : State) : Outcome := ⟨s, [], "", none⟩

/-- Make a call in a state, and go on if it is taken. -/
def ask (answers : Answers) (call : Call) (s : State) (go : Outcome) : Outcome :=
  match answers call with
  | some message => ⟨s, [], "", some (.refused call message)⟩
  | none => { go with calls := call :: go.calls }

def Outcome.andThen (o : Outcome) (go : State → Outcome) : Outcome :=
  match o.failure with
  | some _ => o
  | none => { go o.state with
      calls := o.calls ++ (go o.state).calls, printed := o.printed ++ (go o.state).printed }

section

variable (answers : Answers)

def start (s : State) : Outcome :=
  if s.hasWindow then unchanged s
  else
    let made := { s with hasWindow := true }
    ask answers .makeWindow s (ask answers .hideWindow made
      ⟨{ made with running := true }, [], "[GFX TK] Tkinter Initialized.\n", none⟩)

def figures (s : State) : String :=
  "\n--- GFX Stats ---\n" ++ s!"Total Draw Calls: {s.drawCount}\n" ++
    s!"Total Screen Updates: {s.updateCount}\n" ++ "-----------------\n\n"

def quit (s : State) : Outcome :=
  if s.hasWindow then
    ⟨{ s with hasWindow := false, running := false }, [.destroyWindow], figures s, none⟩
  else unchanged s

/-- Size the canvas, or make one that is held as soon as it is made. -/
def fitCanvas (s : State) (width height : Json) (printed : String) : Outcome :=
  if s.hasCanvas then ask answers (.resizeCanvas width height) s ⟨s, [], printed, none⟩
  else
    let held := { s with hasCanvas := true }
    ask answers (.makeCanvas width height background) s
      (ask answers .packCanvas held ⟨held, [], printed, none⟩)

def setup (s : State) (width height title : Json) : Outcome :=
  (start answers s).andThen fun s =>
    let named := { s with title }
    ask answers .showWindow s (ask answers (.setTitle title) named
      (fitCanvas answers named width height
        s!"[GFX TK] Canvas inicializado: {title.display} ({width.display}x{height.display})\n"))

def ovalOf (x y radius color : Json) : Except Json.AccessError Call := do
  let color ← colorOf color
  return .oval (← x.minus radius) (← y.minus radius) (← x.plus radius) (← y.plus radius) color

def disc (s : State) (x y radius color : Json) : Outcome :=
  if s.hasCanvas then
    let counted := { s with drawCount := s.drawCount + 1 }
    match ovalOf x y radius color with
    | .ok oval => ask answers oval counted (unchanged counted)
    | .error e => ⟨counted, [], "", some (.value e)⟩
  else unchanged s

def update (s : State) : Outcome :=
  if s.hasWindow then
    let counted := { s with updateCount := s.updateCount + 1 }
    ask answers .refresh counted ⟨counted, [], "[GFX TK] Pantalla actualizada.\n", none⟩
  else unchanged s

def step (s : State) : Command → Outcome
  | .start => start answers s
  | .quit => quit s
  | .setup width height title => setup answers s width height title
  | .point x y color => disc answers s x y (.int 1) color
  | .circle x y radius color => disc answers s x y radius color
  | .update => update answers s

end

/-! ## Operations by name -/

/-- What a script can ask of this part: an operation, or a colour. -/
inductive Request where
  | command (command : Command)
  | color (name : Json)
  | randomName

def parameters : List Json.Parameters :=
  [.ofNames "init" [], .ofNames "quit" [], .ofNames "setup_canvas" ["width", "height", "title"],
   .ofNames "draw_point" ["x", "y", "color"], .ofNames "draw_circle" ["x", "y", "radius", "color"],
   .ofNames "update_screen" [], .ofNames "_get_hex_color" ["color_name"],
   .ofNames "get_random_color" []]

def request? : (name : String) → List Json → Option Request
  | "init", [] => some (.command .start)
  | "quit", [] => some (.command .quit)
  | "setup_canvas", [w, h, title] => some (.command (.setup w h title))
  | "draw_point", [x, y, color] => some (.command (.point x y color))
  | "draw_circle", [x, y, radius, color] => some (.command (.circle x y radius color))
  | "update_screen", [] => some (.command .update)
  | "_get_hex_color", [name] => some (.color name)
  | "get_random_color", [] => some .randomName
  | _, _ => none

def checkCall (name : String) (given : Nat) : Except Json.AccessError Unit :=
  match parameters.find? (·.function == name) with
  | some p => p.check given
  | none => .ok ()

/-- Do an operation by its name; the answer comes with what it leaves behind. The name of a random
colour is the one at the place `pick`, where a negative place counts from the end. -/
def perform (answers : Answers) (s : State) (pick : Int) (name : String) (arguments : List Json) :
    Json × Outcome :=
  let failing (e : Json.AccessError) : Json × Outcome := (.null, { unchanged s with failure := some (.value e) })
  match checkCall name arguments.length, request? name arguments with
  | .error e, _ => failing e
  | .ok (), some (.command c) => (.null, step answers s c)
  | .ok (), some (.color name) =>
    match colorOf name with
    | .ok color => (.str color, unchanged s)
    | .error e => failing e
  | .ok (), some .randomName =>
    let place := if pick < 0 then pick + randomNames.length else pick
    match if place < 0 then none else randomNames[place.toNat]? with
    | some name => (.str name, unchanged s)
    | none => failing (.noPlace "list")
  | .ok (), none => (.null, unchanged s)

end ScriptWorkbench.Drawing
