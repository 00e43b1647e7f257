import WireDiagram.Diagram

/-!
# Pages

A diagram is cut between layers into pages that keep to a budget of columns as far as its layers
allow. The labels of the wires stand before the rows of the first page and count towards its width;
a row that goes on ends in a mark, for which one column is kept free.

## Where a page ends

A layer starts a new page when it would leave less than two columns of the budget. The first page
may hold no layer at all; any other page holds at least one, however wide.
-/

namespace WireDiagram

/-- The most columns a page should have. -/
structure PageBudget where
  /-- The number of columns. -/
  columns : Nat
  /-- There is at least one column. -/
  columns_pos : 0 < columns

/-- The mark at the end of a row that goes on. -/
def continuationMark : Char := '»'

/-- The character that the line between two pages is made of. -/
def bannerChar : Char := '-'

/-- The diagram of a trace without instructions. -/
def emptyTraceText : String := "<empty trace>"

/-- The line between two pages of `columns` columns, and the ends of line around it. -/
def banner (columns : Int) : List Char :=
  '\n' :: List.replicate columns.toNat bannerChar ++ ['\n', '\n']

/-- There is no room for a line between two pages of more columns than this: no text is longer than
the largest length, the ends of line included. -/
def maxColumns : Nat := Position.maxLength - 3

theorem maxColumns_le : maxColumns ≤ Position.maxLength :=
  Nat.sub_le _ _

namespace PageBudget

/-- The budget when none is given. -/
def standard : Value := .int 80

/-- The budget that a value is: an integer, not a truth value, and at least one. -/
def ofValue : Value → Except Fault PageBudget
  | .int n =>
    if h : 0 < n then .ok ⟨n.toNat, Int.pos_iff_toNat_pos.mp h⟩ else .error (.badBudget (.int n))
  | .glyph g => if h : 0 < g.rank then .ok ⟨g.rank, h⟩ else .error (.badBudget (.glyph g))
  | v => .error (.badBudget v)

theorem ofValue_columns (b : PageBudget) : ofValue (.int b.columns) = .ok b := by
  have hpos : (0 : Int) < b.columns := Int.ofNat_lt.mpr b.columns_pos
  rw [ofValue, dif_pos hpos]
  rfl

/-! ## Cuts -/

/-- The columns at which pages end, for layers from column `col` on and a page of which `used`
columns are taken. -/
def cutsFrom (b : PageBudget) (col used : Int) : List Int → List Int
  | [] => [col]
  | width :: widths =>
    if used + width ≥ (b.columns : Int) - 1 then
      -- The new page starts with this layer, however wide it is.
      col :: cutsFrom b (col + width) width widths
    else cutsFrom b (col + width) (used + width) widths

/-- The columns at which pages end; the last one is the width of all layers. -/
def cuts (b : PageBudget) (widths : List Int) (labelWidth : Int) : List Int :=
  b.cutsFrom 0 labelWidth widths

theorem cutsFrom_ne_nil (b : PageBudget) (col used : Int) (widths : List Int) :
    b.cutsFrom col used widths ≠ [] := by
  induction widths generalizing col used with
  | nil => simp [cutsFrom]
  | cons width widths ih =>
    unfold cutsFrom
    split
    · simp
    · exact ih _ _

end PageBudget

namespace Diagram

/-! ## Pages -/

/-- A label moved to the right end of `width` columns. -/
def padLeft (width : Nat) (label : String) : List Char :=
  List.replicate (width - label.length) ' ' ++ label.toList

/-- The labels before the rows of the first page, one for every row of the canvas. -/
def prefixes (d : Diagram) : Except Fault (List (List Char)) :=
  if d.rowLabels.length < d.canvas.height then .error .noSuchPosition
  else .ok (d.rowLabels.map (padLeft d.labelWidth))

/-- The rows of a page, without what surrounds them. -/
def pageRows (d : Diagram) (start stop : Int) : List (List Char) :=
  d.canvas.showRows start (some stop)

/-- A row with its end: the mark if it goes on, and a line feed. -/
def endRow (goesOn : Bool) (row : List Char) : List Char :=
  row ++ (if goesOn then [continuationMark] else []) ++ ['\n']

/-- The text of the page from column `start` to column `stop`. -/
def page (d : Diagram) (isFirst goesOn : Bool) (start stop : Int) : Except Fault (List Char) := do
  let rows := d.pageRows start stop
  let rows ← if isFirst then
      d.prefixes.map fun labels ↦ List.zipWith (· ++ ·) labels rows
    else .ok rows
  .ok (rows.flatMap (endRow goesOn))

/-- The texts of the pages that end at the given columns, the first of them from column `start` on.
-/
def pagesFrom (d : Diagram) (isFirst : Bool) (start : Int) :
    List Int → Except Fault (List (List Char))
  | [] => .ok []
  | stop :: cuts => do
    let first ← d.page isFirst (!cuts.isEmpty) start stop
    let rest ← d.pagesFrom false stop cuts
    .ok (first :: rest)

/-- The texts of the pages of a diagram. -/
def pages (d : Diagram) (b : PageBudget) : Except Fault (List (List Char)) :=
  d.pagesFrom true 0 (b.cuts d.layerWidths d.labelWidth)

/-- Pages with the lines between them; no line is made for a single page. -/
def joinPages (columns : Int) : List (List Char) → List Char
  | [] => []
  | [page] => page
  | page :: pages => page ++ banner columns ++ joinPages columns pages

/-- The text of a diagram. There must be room for the line between pages even if there is but one
page. -/
def render (d : Diagram) (b : PageBudget) : Except Fault (List Char) := do
  Room.check maxColumns b.columns
  (d.pages b).map (joinPages b.columns)

theorem render_eq (d : Diagram) (b : PageBudget) : d.render b =
    if b.columns ≤ maxColumns then (d.pages b).map (joinPages b.columns)
    else .error (Room.refusal b.columns) := by
  rw [render, Room.check_natCast maxColumns_le]
  split <;> rfl

end Diagram

/-- The text diagram of a trace within a budget that is still to be checked. -/
def Trace.draw (t : Trace) (budget : Value) : Except Fault String := do
  let b ← PageBudget.ofValue budget
  if t.instructions.isEmpty then .ok emptyTraceText
  else
    let d ← Diagram.ofTrace t
    (d.render b).map String.ofList

end WireDiagram
