import WireDiagram.Check.Layers
import WireDiagram.Check.Pages

/-!
# Checking a whole diagram

The diagram of a trace is checked from the canvas outward: its size, its layers, that drawing it
again gives the same text, its pages, and that exactly the rows that go on bear a mark. The pages
are held to the budget only if every layer fits into it beside the labels.
-/

namespace WireDiagram

/-- Whether every layer leaves room for the labels and the mark within the budget. -/
def Diagram.fits (d : Diagram) (b : PageBudget) : Except Fault Bool :=
  match d.layerWidths.max? with
  | some widest => .ok (decide (widest + d.labelWidth < (b.columns : Int) - 1))
  | none => .error .emptyExtremum

/-- Check the size of the canvas of a diagram on some wires. -/
def Diagram.checkSize (d : Diagram) (wires : Nat) : Except Fault Unit :=
  if d.canvas.height ≠ 2 * wires + 1 then .error (.wrongCanvasHeight d.canvas.height wires)
  else if (d.canvas.width : Int) ≠ totalWidth d.layerWidths then .error .wrongCanvasWidth
  else .ok ()

/-- Check the diagram of a trace within a budget that is still to be checked. -/
def Trace.checkDiagram (t : Trace) (budget : Value) : Except Fault Unit := do
  let d ← Diagram.ofTrace t
  d.checkSize t.wireCount
  LayerCheck.checkLayers (d.layers.map .ofLayer) d.operators
  let text ← t.draw budget
  let again ← t.draw budget
  if text ≠ again then .error .unstableDrawing
  else
    let b ← PageBudget.ofValue budget
    let fits ← d.fits b
    if fits then PageCheck.checkPages text.toList (.int t.wireCount) budget
    let cuts := b.cuts d.layerWidths d.labelWidth
    if text.toList.count continuationMark = (cuts.length - 1) * d.canvas.height then .ok ()
    else .error .wrongMarkCount

end WireDiagram
