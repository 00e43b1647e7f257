import WireDiagram.Draft.Operator
import WireDiagram.Operator.Columns
import WireDiagram.Value.Sequence

/-!
# Wires and columns of drafts

What an operator written by hand covers and where it stands, computed when it is asked for. Wires
and counts are given up as they were written; a sum or a slice of them is where a value of the wrong
kind is noticed.

An operator can be placed at any value, also at one that is no column. Being placed is all that is
asked before it is refused a second time; that the value is no column shows when columns are
computed from it.
-/

namespace WireDiagram.OperatorDraft

/-! ## Wires -/

/-- The wires acted on. -/
def targets (op : OperatorDraft) : Except Fault (List Value) :=
  Value.slice op.wires .null op.targetCount

/-- The conditioning wires. -/
def controls (op : OperatorDraft) : Except Fault (List Value) := do
  Value.slice op.wires op.targetCount (← op.targetCount.plus op.controlCount)

/-- Whether an operator says that it has controls. -/
def hasControls (op : OperatorDraft) : Except Fault Bool :=
  match (Value.int 0).isLess? op.controlCount with
  | some b => .ok b
  | none => .error .wrongType

/-- The wires from the first to the last one covered. -/
def span (op : OperatorDraft) : Except Fault Span := do
  let low ← Value.least op.wires
  let next ← (← Value.greatest op.wires).plus (.int 1)
  .ok ⟨← low.toInt, (← next.toInt) - 1⟩

/-! ## Columns -/

/-- The number of columns taken. -/
def width (op : OperatorDraft) : Except Fault Int :=
  match op.shape with
  | .plainBox label => do
    let length ← label.length
    let hasControls ← op.hasControls
    .ok (length + 2 + if hasControls then 1 else 0)
  | .controlledBox label => do
    let length ← label.length
    .ok (length + 2)
  | .swap => .ok 3

/-- Whether an operator has been placed. -/
def isPlaced (op : OperatorDraft) : Bool :=
  match op.column with
  | .null => false
  | _ => true

/-- Place an operator so that its leftmost column is `col`; no column leaves it without one. -/
def place (op : OperatorDraft) (col : Value) : Except Fault OperatorDraft :=
  if op.isPlaced then .error (.alreadyPlaced op op.column) else .ok { op with column := col }

/-- The leftmost column of an operator. -/
def leftColumn (op : OperatorDraft) : Except Fault Value :=
  if op.isPlaced then .ok op.column else .error (.notPlaced op)

/-- The rightmost column of an operator. -/
def rightColumn (op : OperatorDraft) : Except Fault Value := do
  (← (← op.leftColumn).plus (.int (← op.width))).minus (.int 1)

/-- The middle column of an operator. -/
def midColumn (op : OperatorDraft) : Except Fault Value := do
  (← (← op.leftColumn).plus (← op.rightColumn)).halved

/-- The leftmost, middle and rightmost column of an operator. -/
def columns (op : OperatorDraft) : Except Fault (Value × Value × Value) := do
  .ok (← op.leftColumn, ← op.midColumn, ← op.rightColumn)

/-! ## Drafts of operators -/

theorem targets_ofOperator (op : Operator) :
    (ofOperator op).targets = .ok (op.targets.map op.written) := by
  simp only [targets, ofOperator, Value.slice_null_int, Position.slice_map]
  rfl

theorem controls_ofOperator (op : Operator) :
    (ofOperator op).controls = .ok (op.controls.map op.written) := by
  simp only [controls, ofOperator, Value.plus_int, bind, Except.bind, Value.slice_int,
    Position.slice_map]
  rfl

theorem hasControls_ofOperator (op : Operator) :
    (ofOperator op).hasControls = .ok (decide (0 < op.controlCount)) := by
  simp only [hasControls, ofOperator, Value.isLess?_int]

theorem span_ofOperator (op : Operator) :
    (ofOperator op).span = match op.span? with
      | some s => .ok s
      | none => .error .emptyExtremum := by
  have hleast := Value.least_ofWire op.glyphs op.wires
  have hgreatest := Value.greatest_ofWire op.glyphs op.wires
  have hwires : (ofOperator op).wires = op.wires.map (Value.ofWire op.glyphs) := rfl
  simp only [span, hwires, hleast, hgreatest, Operator.span?]
  cases hmin : op.wires.min? with
  | none => rfl
  | some low => cases hmax : op.wires.max? with
    | none => rfl
    | some high =>
      have hlow := Value.toInt_of_integer? (Value.integer?_ofWire op.glyphs low)
      have hnext := Value.plus_of_integer? (Value.integer?_ofWire op.glyphs high)
        (rfl : (Value.int 1).integer? = some 1)
      simp [bind, Except.bind, hlow, hnext, Value.toInt_int]

theorem width_ofOperator (op : Operator) : (ofOperator op).width = .ok op.width := by
  have marked := hasControls_ofOperator op
  cases h : op.shape with
  | plainBox label =>
    have hs : (ofOperator op).shape = .plainBox (.text label) := by simp [ofOperator, h]; rfl
    simp [width, hs, marked, Operator.width, h, Value.length, bind, Except.bind]
  | controlledBox label =>
    have hs : (ofOperator op).shape = .controlledBox (.text label) := by simp [ofOperator, h]; rfl
    simp [width, hs, Operator.width, h, Value.length, bind, Except.bind]
  | swap =>
    have hs : (ofOperator op).shape = .swap := by simp [ofOperator, h]; rfl
    simp [width, hs, Operator.width, h]

theorem place_ofOperator (op : Operator) (col : Int) :
    (ofOperator op).place (.int col) = (op.place col).map ofOperator := by
  cases h : op.column? <;>
    simp [place, isPlaced, ofOperator, Operator.place, Operator.written, h, Except.map]

theorem leftColumn_ofOperator (op : Operator) :
    (ofOperator op).leftColumn = op.column.map .int := by
  cases h : op.column? <;> simp [leftColumn, isPlaced, ofOperator, Operator.column, h, Except.map]

theorem rightColumn_ofOperator (op : Operator) :
    (ofOperator op).rightColumn = op.columns.map fun (_, _, right) ↦ .int right := by
  simp only [rightColumn, leftColumn_ofOperator, width_ofOperator, Operator.columns, bind,
    Except.bind]
  cases op.column <;> rfl

theorem midColumn_ofOperator (op : Operator) :
    (ofOperator op).midColumn = op.columns.map fun (_, mid, _) ↦ .int mid := by
  simp only [midColumn, leftColumn_ofOperator, rightColumn_ofOperator, Operator.columns, bind,
    Except.bind]
  cases op.column <;> rfl

theorem columns_ofOperator (op : Operator) :
    (ofOperator op).columns =
      op.columns.map fun (left, mid, right) ↦ (.int left, .int mid, .int right) := by
  simp only [columns, leftColumn_ofOperator, midColumn_ofOperator, rightColumn_ofOperator,
    Operator.columns, bind, Except.bind]
  cases op.column <;> rfl

end WireDiagram.OperatorDraft
