import WireDiagram.Draft.Canvas
import WireDiagram.Draft.Columns

/-!
# Drawing drafts

Operators written by hand are drawn like any others, stroke by stroke, as far as they can be. Their
wires, counts and columns are looked at when a stroke needs them and not before, so what is wrong
with one of them stops the drawing there, and what has been drawn stays on the canvas.

## What is looked up, and when

A box finds its rows before its columns, a swap its columns first. The edges of a box are drawn
before its walls, and its walls before its corners; then come its targets, its controls and its
label.
-/

namespace WireDiagram

/-- A computation that paints on a canvas. What has been painted stays when it fails. -/
abbrev Painting := ExceptT Fault (StateM CanvasDraft)

namespace Painting

/-! ## Strokes -/

/-- An operation on the canvas; one that fails changes nothing. -/
def stroke (f : CanvasDraft → Except Fault CanvasDraft) : Painting Unit := fun c ↦
  match f c with
  | .ok c' => (.ok (), c')
  | .error fault => (.error fault, c)

/-- Overwrite cells. -/
def put (row col x : Value) : Painting Unit :=
  stroke (·.setAt row col x)

/-- Draw over cells. -/
def merge (row col : Value) (g : Glyph) : Painting Unit :=
  stroke (·.mergeAt row col (.glyph g))

/-- Blank the columns of a row from `start` up to, not including, `stop`. -/
def blank (row start stop : Value) : Painting Unit :=
  stroke (·.fillAt row start stop (Cell.value .blank))

/-- Write the characters of a text, or the members of a list, from column `col` on. -/
def write (row col text : Value) : Painting Unit := do
  let xs ← text.members
  fun c ↦ match c.writeAt row col 0 xs with
    | (c', none) => (.ok (), c')
    | (c', some fault) => (.error fault, c')

/-- The row that a wire runs along. -/
def rowOf (wire : Value) : Painting Value := do
  (← get).rowOf wire

/-- A vertical line from row `start` up to, not including, `stop`. -/
def line (col start stop : Value) : Painting Unit := do
  (← Value.range start stop).forM fun row ↦ merge row col .line

/-- Paint on a canvas. The canvas that is returned holds what was painted before the fault, if there
is one. -/
def on (p : Painting Unit) (c : CanvasDraft) : CanvasDraft × Option Fault :=
  match p c with
  | (.ok (), c') => (c', none)
  | (.error fault, c') => (c', some fault)

end Painting

namespace OperatorDraft

open Painting

/-! ## Boxes -/

/-- The rows of the upper and the lower edge of a box around some wires. -/
def boxRows (wires : List Value) : Painting (Value × Value) := do
  let top ← (← rowOf (← Value.least wires)).minus (.int 1)
  let bottom ← (← rowOf (← Value.greatest wires)).plus (.int 1)
  return (top, bottom)

/-- The frame of a box around a blank inside: the edges, the walls, the corners. -/
def drawFrame (op : OperatorDraft) (top bottom : Value) : Painting Unit := do
  let left ← op.leftColumn
  let right ← op.rightColumn
  let inner ← left.plus (.int 1)
  (← Value.range inner right).forM fun col ↦ do
    merge top col .wire
    merge bottom col .wire
  (← Value.range (← top.plus (.int 1)) bottom).forM fun row ↦ do
    put row left (.glyph .line)
    put row right (.glyph .line)
    blank row inner right
  merge top left .topLeft
  merge bottom left .bottomLeft
  merge top right .topRight
  merge bottom right .bottomRight

/-- Targets on their wires, pointed out beside controls. -/
def drawTargets (op : OperatorDraft) : Painting Unit := do
  let left ← op.leftColumn
  (← op.targets).forM fun wire ↦ do
    let row ← rowOf wire
    put row left (.glyph .leftWall)
    put row (← op.rightColumn) (.glyph .rightWall)
    if ← op.hasControls then put row (← left.plus (.int 1)) (Cell.value (.ofChar '>'))

/-- Controls inside a box, on their wires. -/
def drawInnerControls (op : OperatorDraft) : Painting Unit := do
  let left ← op.leftColumn
  (← op.controls).forM fun wire ↦ do
    let row ← rowOf wire
    put row left (.glyph .leftWall)
    put row (← left.plus (.int 1)) (.glyph .dot)
    put row (← op.rightColumn) (.glyph .rightWall)

/-- A label on the middle row of a box, its first character `offset` columns after the left wall. -/
def drawLabel (op : OperatorDraft) (top bottom : Value) (offset : Int) (label : Value) :
    Painting Unit := do
  let row ← (← top.plus bottom).halved
  write row (← (← op.leftColumn).plus (.int offset)) label

/-! ## Controls outside -/

/-- Whether a row lies above another. -/
def isAbove (row other : Value) : Except Fault Bool :=
  match row.isLess? other with
  | some b => .ok b
  | none => .error .wrongType

/-- A control on `row`, and the line from it to the nearer of the rows `top` and `bottom`. -/
def drawControl (col row top bottom : Value) : Painting Unit := do
  put row col (.glyph .dot)
  if ← isAbove row top then line col (← row.plus (.int 1)) top
  else line col (← bottom.plus (.int 1)) row

/-- The controls of a box, each with the point where its line meets the box. -/
def drawOuterControls (op : OperatorDraft) (top bottom : Value) : Painting Unit := do
  let col ← op.midColumn
  (← op.controls).forM fun wire ↦ do
    let row ← rowOf wire
    drawControl col row top bottom
    if ← isAbove row top then put top col (.glyph .topEdge)
    else put bottom col (.glyph .bottomEdge)

/-! ## The three shapes -/

/-- A box around all wires, its controls inside. -/
def drawPlainBox (op : OperatorDraft) (label : Value) : Painting Unit := do
  let (top, bottom) ← boxRows op.wires
  op.drawFrame top bottom
  op.drawTargets
  op.drawInnerControls
  let offset := if ← op.hasControls then 2 else 1
  op.drawLabel top bottom offset label

/-- A box around the targets, the controls outside. -/
def drawControlledBox (op : OperatorDraft) (label : Value) : Painting Unit := do
  let (top, bottom) ← boxRows (← op.targets)
  op.drawFrame top bottom
  op.drawTargets
  op.drawOuterControls top bottom
  op.drawLabel top bottom 1 label

/-- The row of the wire at a place in the list of wires. -/
def rowOfWireAt (op : OperatorDraft) (k : Nat) : Painting Value :=
  match op.wires[k]? with
  | some wire => rowOf wire
  | none => throw .noSuchPosition

/-- Two crosses on the first two wires, with the controls above, between or below. -/
def drawSwap (op : OperatorDraft) : Painting Unit := do
  let col ← (← op.leftColumn).plus (.int 1)
  let row₀ ← op.rowOfWireAt 0
  let row₁ ← op.rowOfWireAt 1
  put row₀ col (.glyph .swapMark)
  line col (← row₀.plus (.int 1)) row₁
  put row₁ col (.glyph .swapMark)
  (← op.controls).forM fun wire ↦ do
    drawControl col (← rowOf wire) row₀ row₁

/-- Draw an operator. -/
def draw (op : OperatorDraft) : Painting Unit :=
  match op.shape with
  | .plainBox label => op.drawPlainBox label
  | .controlledBox label => op.drawControlledBox label
  | .swap => op.drawSwap

end OperatorDraft

end WireDiagram
