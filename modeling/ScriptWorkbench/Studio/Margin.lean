/-
The line numbers beside a text, in an area as wide as the number of the last line needs.
-/
import ScriptWorkbench.Studio.CodeView

namespace ScriptWorkbench.Studio

/-- What is asked of the window system for the margin. -/
inductive MarginCall where
  | scroll (dx dy : Int)
  | repaint (x y width height : Int)
  | margins (left : Nat)
  | place (x y : Int) (width : Nat) (height : Int)
  | number (x y : Int) (width height : Nat) (text : String)
deriving Repr, DecidableEq

namespace CodeView

def digitWidth : Nat := 7

def digitCount (n : Nat) : Nat := (Nat.toDigits 10 n).length

def marginWidth (v : CodeView) : Nat :=
  10 + digitWidth * digitCount v.document.lineCount

def setMargin (v : CodeView) : MarginCall :=
  .margins (if v.numbered then v.marginWidth else 0)

def areaWidth : Nat := 40

def fontHeight : Nat := 12

/-- Follow the text: scroll with it, or repaint what has changed. When all of the text is concerned,
the room for the area is measured again. -/
def updateArea (v : CodeView) (y height dy : Int) (wholeView : Bool) : List MarginCall :=
  (if dy = 0 then .repaint 0 y areaWidth height else .scroll 0 dy) ::
    (if wholeView then [v.setMargin] else [])

def resize (v : CodeView) (x y height : Int) : MarginCall :=
  .place x y v.marginWidth height

/-- What is to be painted, and how high a line is. -/
structure PaintArea where
  top : Int
  bottom : Int
  lineHeight : Int
deriving Repr, DecidableEq

def paintFrom (a : PaintArea) (hidden : List Nat) : (count n : Nat) → (y : Int) → List MarginCall
  | 0, _, _ => []
  | count + 1, n, y =>
    if a.bottom < y then []
    else
      let rest := paintFrom a hidden count (n + 1) (y + a.lineHeight)
      if hidden.contains n || y + a.lineHeight < a.top then rest
      else .number 0 y (areaWidth - 5) fontHeight (toString (n + 1)) :: rest

def paint (v : CodeView) (a : PaintArea) (hidden : List Nat) (first : Nat) (y : Int) :
    List MarginCall :=
  paintFrom a hidden (v.document.lineCount - first) first y

end CodeView

end ScriptWorkbench.Studio
