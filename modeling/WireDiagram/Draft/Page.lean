import WireDiagram.Draft.Canvas
import WireDiagram.Page

/-!
# Pages of drafts

The widths of layers, and the room that the labels take, may be unchecked values. Cuts are sums of
widths, so they are then values too, and adding up the widths is where a width that is no number is
noticed. A cut can be a fraction; it is a number, but no column at which a row could be divided.

A diagram that was put together by hand is a canvas with widths and labels that need not fit it, and
its pages are made row by row: first what the row shows, then the label before it.
-/

namespace WireDiagram

namespace PageBudget

/-- The columns at which pages end, for layers of unchecked widths from column `col` on and a page
of which `used` columns are taken. -/
def draftCutsFrom (b : PageBudget) (col used : Value) : List Value → Except Fault (List Value)
  | [] => .ok [col]
  | width :: widths => do
    let total ← used.plus width
    let isFull ← total.reaches ((b.columns : Int) - 1)
    let next ← col.plus width
    if isFull then
      .ok (col :: (← b.draftCutsFrom next (← (Value.int 0).plus width) widths))
    else b.draftCutsFrom next total widths

/-- The columns at which pages end, for layers of unchecked widths; the last one is the width of all
layers. -/
def draftCuts (b : PageBudget) (widths : List Value) (labelWidth : Value) :
    Except Fault (List Value) :=
  b.draftCutsFrom (.int 0) labelWidth widths

theorem draftCutsFrom_int (b : PageBudget) (col used : Int) (widths : List Int) :
    b.draftCutsFrom (.int col) (.int used) (widths.map .int) =
      .ok ((b.cutsFrom col used widths).map .int) := by
  induction widths generalizing col used with
  | nil => rfl
  | cons width widths ih =>
    simp only [List.map_cons, draftCutsFrom, cutsFrom, Value.plus_int, Value.reaches_int, bind,
      Except.bind, ih, decide_eq_true_eq, ge_iff_le, Int.zero_add]
    split <;> simp

/-- On widths that are integers, the cuts are those of the budget. -/
theorem draftCuts_int (b : PageBudget) (widths : List Int) (labelWidth : Int) :
    b.draftCuts (widths.map .int) (.int labelWidth) =
      .ok ((b.cuts widths labelWidth).map .int) :=
  b.draftCutsFrom_int 0 labelWidth widths

end PageBudget

/-- A diagram put together by hand. -/
structure DiagramDraft where
  /-- The canvas. -/
  canvas : CanvasDraft
  /-- What stands for the widths of the layers, from left to right. -/
  widths : List Value
  /-- What stands for the labels of the rows. -/
  rowLabels : List Value

namespace DiagramDraft

/-- The draft that a diagram is. -/
def ofDiagram (d : Diagram) : DiagramDraft :=
  ⟨.ofCanvas d.canvas, d.layerWidths.map .int, d.rowLabels.map .text⟩

/-- The width of the longest row label. -/
def labelWidth (d : DiagramDraft) : Except Fault Nat := do
  let lengths ← d.rowLabels.mapM Value.length
  .ok (lengths.max?.getD 0)

/-- The label of a row moved to the right end of `width` columns. There must be one, and it must be
a text. -/
def padLabel (width : Nat) : Option Value → Except Fault (List Char)
  | none => .error .noSuchPosition
  | some (.text label) => .ok (Diagram.padLeft width label)
  | some _ => .error .wrongType

/-- Rows of the first page, each behind the label that is next. -/
def firstRows (d : DiagramDraft) (width : Nat) (start stop : Value) :
    List Value → List (List Value) → Except Fault (List (List Char))
  | _, [] => .ok []
  | labels, xs :: rows => do
    let text ← d.canvas.showSlice start stop xs
    let label ← padLabel width labels.head?
    .ok ((label ++ text) :: (← d.firstRows width start stop labels.tail rows))

/-- The text of the page from column `start` to column `stop`. -/
def page (d : DiagramDraft) (isFirst goesOn : Bool) (start stop : Value) :
    Except Fault (List Char) := do
  let rows ← if isFirst then
      d.firstRows (← d.labelWidth) start stop d.rowLabels d.canvas.rows
    else d.canvas.showRowsAt start stop
  .ok (rows.flatMap (Diagram.endRow goesOn))

/-- The texts of the pages that end at the given columns, the first of them from column `start` on.
-/
def pagesFrom (d : DiagramDraft) (isFirst : Bool) (start : Value) :
    List Value → Except Fault (List (List Char))
  | [] => .ok []
  | stop :: cuts => do
    let first ← d.page isFirst (!cuts.isEmpty) start stop
    let rest ← d.pagesFrom false stop cuts
    .ok (first :: rest)

/-- The text of a diagram. There must be room for the line between pages even if there is but one
page. -/
def render (d : DiagramDraft) (b : PageBudget) : Except Fault (List Char) := do
  Room.check maxColumns b.columns
  let cuts ← b.draftCuts d.widths (.int (← d.labelWidth))
  (d.pagesFrom true (.int 0) cuts).map (Diagram.joinPages b.columns)

end DiagramDraft

end WireDiagram
