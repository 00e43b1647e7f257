import WireDiagram.Operator.Columns
import WireDiagram.Sketch

/-!
# Drawing operators

The sketch of a placed operator on a number of wires. A box is drawn from the outside in: its edges,
its walls with the inside blanked, its corners, the marks of its wires, then its label. Edges and
corners are drawn over what is there, since a box may share a row with the box above or below it;
everything inside is overwritten.

## What is looked up, and when

A box finds its rows before its columns, a swap its columns first. The controls of a box with
controls outside, and those of a swap, are looked up one at a time while they are drawn. The wires
inside a box lie between its first and its last one, so they exist once those two do, and need no
look-up of their own.
-/

namespace WireDiagram

open Stroke

/-! ## Lines and boxes -/

/-- A vertical line from row `start` up to, not including, `stop`. -/
def lineStrokes (col start stop : Int) : List Stroke :=
  (intRange start stop).map fun row ↦ merge row col (.glyph .line)

/-- The rows and columns of a box, its frame included. -/
structure Box where
  /-- The row of the upper edge. -/
  top : Int
  /-- The row of the lower edge. -/
  bottom : Int
  /-- The column of the left wall. -/
  left : Int
  /-- The column of the right wall. -/
  right : Int

namespace Box

/-- The row that the label is written on. -/
def labelRow (b : Box) : Int :=
  (b.top + b.bottom) / 2

/-- Both edges, from left to right. -/
def edges (b : Box) : List Stroke :=
  (intRange (b.left + 1) b.right).flatMap fun col ↦
    [merge b.top col (.glyph .wire), merge b.bottom col (.glyph .wire)]

/-- Both walls and the blank inside, from top to bottom. -/
def walls (b : Box) : List Stroke :=
  (intRange (b.top + 1) b.bottom).flatMap fun row ↦
    put row b.left (.glyph .line) :: put row b.right (.glyph .line) ::
      (intRange (b.left + 1) b.right).map fun col ↦ put row col .blank

/-- The four corners. -/
def corners (b : Box) : List Stroke :=
  [merge b.top b.left (.glyph .topLeft), merge b.bottom b.left (.glyph .bottomLeft),
    merge b.top b.right (.glyph .topRight), merge b.bottom b.right (.glyph .bottomRight)]

/-- The frame around a blank inside. The corners come last, so that they meet the edges and what is
left of a neighbouring box, and not a wall. -/
def frame (b : Box) : List Stroke :=
  b.edges ++ b.walls ++ b.corners

/-- The wire on a row enters on the left and leaves on the right. -/
def joinWire (b : Box) (row : Int) : List Stroke :=
  [put row b.left (.glyph .leftWall), put row b.right (.glyph .rightWall)]

/-- Targets on their wires, pointed out if `marked`. -/
def targetMarks (b : Box) (marked : Bool) (targets : List Int) : List Stroke :=
  targets.flatMap fun wire ↦
    b.joinWire (wireRow wire) ++
      if marked then [put (wireRow wire) (b.left + 1) (.ofChar '>')] else []

/-- Controls inside the box, on their wires. -/
def controlMarks (b : Box) (controls : List Int) : List Stroke :=
  controls.flatMap fun wire ↦
    [put (wireRow wire) b.left (.glyph .leftWall), put (wireRow wire) (b.left + 1) (.glyph .dot),
      put (wireRow wire) b.right (.glyph .rightWall)]

/-- A label whose first character is at column `col`. -/
def labelStrokes (b : Box) (col : Int) (label : String) : List Stroke :=
  label.toList.zipIdx.map fun (ch, k) ↦ put b.labelRow (col + k) (.ofChar ch)

end Box

/-! ## Controls outside -/

/-- A control on `row`, and the line from it to the nearer of the rows `top` and `bottom`. -/
def controlStrokes (col row top bottom : Int) : List Stroke :=
  put row col (.glyph .dot) ::
    if row < top then lineStrokes col (row + 1) top else lineStrokes col (bottom + 1) row

/-- The strokes of each control in turn, as long as its wire exists. -/
def controlSketch (count : Nat) (strokes : Int → List Stroke) : List Int → Sketch
  | [] => .ofStrokes []
  | wire :: wires => match checkedRow count wire with
    | .ok row => .ofStrokes (strokes row) ++ controlSketch count strokes wires
    | .error fault => .fail fault

/-- A control and the point where its line meets the box. -/
def Box.attachStrokes (b : Box) (col row : Int) : List Stroke :=
  controlStrokes col row b.top b.bottom ++
    if row < b.top then [put b.top col (.glyph .topEdge)]
    else [put b.bottom col (.glyph .bottomEdge)]

/-- The crosses of a swap and the line between them. -/
def swapStrokes (col row₀ row₁ : Int) : List Stroke :=
  put row₀ col (.glyph .swapMark) :: lineStrokes col (row₀ + 1) row₁ ++
    [put row₁ col (.glyph .swapMark)]

namespace Operator

/-! ## The three shapes -/

/-- The rows of the edges of a box around some wires. -/
def boxRows (count : Nat) (wires : List Int) : Except Fault (Int × Int) :=
  match wires.min?, wires.max? with
  | some low, some high => do
    let first ← checkedRow count low
    let last ← checkedRow count high
    .ok (first - 1, last + 1)
  | _, _ => .error .emptyExtremum

/-- The box of an operator around some of its wires. -/
def box (op : Operator) (count : Nat) (wires : List Int) : Except Fault Box := do
  let (top, bottom) ← boxRows count wires
  let (left, _, right) ← op.columns
  .ok ⟨top, bottom, left, right⟩

/-- A box around all wires, its controls inside. -/
def plainBoxSketch (op : Operator) (count : Nat) (label : String) : Except Fault Sketch := do
  let b ← op.box count op.wires
  let marked := decide (0 < op.controlCount)
  .ok (.ofStrokes
    (b.frame ++ b.targetMarks marked op.targets ++ b.controlMarks op.controls ++
      b.labelStrokes (b.left + 1 + if marked then 1 else 0) label))

/-- A box around the targets, the controls outside. -/
def controlledBoxSketch (op : Operator) (count : Nat) (label : String) : Except Fault Sketch := do
  let b ← op.box count op.targets
  let (_, mid, _) ← op.columns
  .ok (.ofStrokes (b.frame ++ b.targetMarks (decide (0 < op.controlCount)) op.targets) ++
    controlSketch count (b.attachStrokes mid) op.controls ++
    .ofStrokes (b.labelStrokes (b.left + 1) label))

/-- The row of the wire at a place in the list of wires. -/
def wireRowAt (op : Operator) (count : Nat) (k : Nat) : Except Fault Int :=
  match op.wires[k]? with
  | some wire => checkedRow count wire
  | none => .error .noSuchPosition

/-- Two crosses on the first two wires, with the controls above, between or below. -/
def swapSketch (op : Operator) (count : Nat) : Except Fault Sketch := do
  let left ← op.column
  let row₀ ← op.wireRowAt count 0
  let row₁ ← op.wireRowAt count 1
  .ok (.ofStrokes (swapStrokes (left + 1) row₀ row₁) ++
    controlSketch count (fun row ↦ controlStrokes (left + 1) row row₀ row₁) op.controls)

/-- The sketch of an operator on `count` wires. -/
def sketch (op : Operator) (count : Nat) : Sketch :=
  .ofExcept <| match op.shape with
    | .plainBox label => op.plainBoxSketch count label
    | .controlledBox label => op.controlledBoxSketch count label
    | .swap => op.swapSketch count

end Operator

/-- Draw an operator. The canvas that is returned holds what was drawn before the fault, if there is
one. -/
def Canvas.draw (c : Canvas) (op : Operator) : Canvas × Option Fault :=
  c.paint (op.sketch c.wires)

end WireDiagram
