import WireDiagram.Operator.Drawing
import WireDiagram.Operator.Selection
import WireDiagram.Placement

/-!
# Diagrams

A diagram is a trace laid out and drawn, but not yet cut into pages: a canvas, what is on it, and
the labels that stand before its rows.
-/

namespace WireDiagram

/-- A trace laid out and drawn. -/
structure Diagram where
  /-- The canvas with all operators on it. -/
  canvas : Canvas
  /-- The layers, from left to right. -/
  layers : List Layer
  /-- The operators, in the order of the instructions. -/
  operators : List Operator
  /-- A label for every row of the canvas; rows between wires have an empty one. -/
  rowLabels : List String

/-- The label before a wire. -/
def wireLabel (wire : Nat) : String :=
  s!"q{wire} : "

/-- The labels of the rows of a canvas for some wires; rows between wires have an empty one. -/
def wireLabels (wires : Nat) : List String :=
  (List.range (2 * wires + 1)).map fun r ↦ if r % 2 = 1 then wireLabel (r / 2) else ""

/-- Draw operators in order, up to the first that fails. -/
def Canvas.drawAll (c : Canvas) : List Operator → Except Fault Canvas
  | [] => .ok c
  | op :: ops => match c.draw op with
    | (c', none) => c'.drawAll ops
    | (_, some fault) => .error fault

namespace Diagram

/-- The width of the longest row label. -/
def labelWidth (d : Diagram) : Nat :=
  (d.rowLabels.map String.length).max?.getD 0

/-- The widths of the layers. -/
def layerWidths (d : Diagram) : List Int :=
  d.layers.map Layer.width

/-- Lay out and draw a trace. The labels are a list with an entry for every row. -/
def ofTrace (t : Trace) : Except Fault Diagram := do
  let layers ← packOn t.operators t.wireCount
  let placement := Placement.ofLayers layers t.operators
  let total ← placement.total
  let canvas ← Canvas.make? t.wireCount total
  let drawn ← canvas.drawAll placement.operators
  Room.check Room.maxEntries drawn.height
  .ok ⟨drawn, layers, placement.operators, wireLabels drawn.wires⟩

end Diagram

end WireDiagram
