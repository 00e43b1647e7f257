import WireDiagram.Cell
import WireDiagram.Value.Sequence

/-!
# Contents of cells

What a caller puts into a cell of a canvas may be any value. A glyph or a text is the content of a
cell; any other value is stored like one and merged by the same rules as far as they apply, but it
has no rank and cannot be shown.
-/

namespace WireDiagram

/-- The value that the content of a cell is. -/
def Cell.value : Cell → Value
  | .glyph g => .glyph g
  | .raw chars => .text (String.ofList chars)

namespace Value

/-- The cell that a value is the content of. -/
def cell? : Value → Option Cell
  | .glyph g => some (.glyph g)
  | .text s => some (.raw s.toList)
  | _ => none

theorem cell?_value (x : Cell) : x.value.cell? = some x := by
  cases x <;> simp [Cell.value, cell?]

/-! ## Showing -/

/-- The characters that show a value in a cell. -/
def cellChars (v : Value) : Except Fault (List Char) :=
  match v.cell? with
  | some x => .ok x.chars
  | none => .error .wrongType

/-- The characters that show the values in a row of cells. -/
def showCells (vs : List Value) : Except Fault (List Char) :=
  (vs.mapM cellChars).map List.flatten

/-! ## Merging -/

/-- Whether two values are of one kind. -/
def isOfKind : Value → Value → Bool
  | .null, .null => true
  | .bool _, .bool _ => true
  | .int _, .int _ => true
  | .float _, .float _ => true
  | .glyph _, .glyph _ => true
  | .text _, .text _ => true
  | .list _, .list _ => true
  | _, _ => false

/-- What a vertical line leaves of a value that is no cell: a number that is the rank of a control
or of a crossing stays, and everything else gives way. -/
def underLine (v : Value) : Value :=
  if v.same (.glyph .dot) || v.same (.glyph .cross) then v else .glyph .line

/-- What is left in a cell when one value is drawn over another. Cells follow the rules of cells,
and other values the first of them, which need no rank. -/
def mergeCells (existing incoming : Value) : Except Fault Value :=
  match existing.cell?, incoming.cell? with
  | some x, some y => (x.merge y).map Cell.value
  | some x, none => if x = .blank then .ok incoming else .error .wrongType
  | none, some y =>
    if y = .blank then .ok existing
    else if y = .glyph .line then .ok existing.underLine
    else .error .wrongType
  | none, none =>
    if existing.isOfKind incoming && existing.same incoming then .ok existing
    else .error .wrongType

theorem mergeCells_value (x y : Cell) :
    x.value.mergeCells y.value = (x.merge y).map Cell.value := by
  simp only [mergeCells, cell?_value]

end Value

end WireDiagram
