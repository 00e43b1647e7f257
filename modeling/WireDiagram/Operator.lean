import WireDiagram.Instruction
import WireDiagram.Position

/-!
# Operators

An operator is the drawable form of one instruction: a shape, the wires it covers, and the column it
has been placed at, if it has been placed.

## Wires as integers

Operators may also be made by hand, with any wires and any counts of targets and controls. What such
an operator shows as its targets and controls are slices of its wires, so wires and counts are
integers here and a slice never fails.

An instruction may have written a wire as a glyph, and a message that names the operator shows it
that way. So the glyphs are kept beside the wires; nothing else depends on them.
-/

namespace WireDiagram

/-- How an instruction is drawn. -/
inductive Shape where
  /-- One box around every wire the instruction touches. -/
  | plainBox (label : String)
  /-- A box around the targets, with the controls outside of it. -/
  | controlledBox (label : String)
  /-- Two crosses joined by a line. -/
  | swap
  deriving DecidableEq, Repr

/-- The text inside a box; a swap has none. -/
def Shape.label? : Shape → Option String
  | .plainBox label => some label
  | .controlledBox label => some label
  | .swap => none

/-- The name of a shape in messages. -/
def Shape.name : Shape → String
  | .plainBox _ => "PlainBox"
  | .controlledBox _ => "ControlledBox"
  | .swap => "Swap"

/-- The drawable form of one instruction. -/
structure Operator where
  /-- How it is drawn. -/
  shape : Shape
  /-- The targets followed by the controls. -/
  wires : List Int
  /-- How many of the wires are targets. -/
  targetCount : Int
  /-- How many of the wires are controls. -/
  controlCount : Int
  /-- The leftmost column, once it has been placed. -/
  column? : Option Int
  /-- The glyphs that wires were written as, which show where a message names a wire. -/
  glyphs : List Glyph
  deriving DecidableEq, Repr

namespace Operator

/-! ## Wires -/

/-- The wires acted on. -/
def targets (op : Operator) : List Int :=
  Position.slice op.wires 0 op.targetCount

/-- The conditioning wires. -/
def controls (op : Operator) : List Int :=
  Position.slice op.wires op.targetCount (op.targetCount + op.controlCount)

/-- What a wire was written as. -/
def written (op : Operator) (wire : Int) : Value :=
  .ofWire op.glyphs wire

theorem map_written {op : Operator} (h : op.glyphs = []) (wires : List Int) :
    wires.map op.written = wires.map .int := by
  simp only [show op.written = Value.ofWire [] from by rw [← h]; rfl, Value.map_ofWire_nil]

/-- The wires from the first to the last one covered; an operator without wires covers none. -/
def span? (op : Operator) : Option Span :=
  op.wires.min?.bind fun low ↦ op.wires.max?.map fun high ↦ ⟨low, high⟩

/-! ## Columns -/

/-- The number of columns taken: the label between two walls, and room for the marks of a box that
holds its controls. -/
def width (op : Operator) : Int :=
  match op.shape with
  | .plainBox label => label.length + 2 + (if 0 < op.controlCount then 1 else 0)
  | .controlledBox label => label.length + 2
  | .swap => 3

/-- The leftmost, middle and rightmost column of an operator placed at `left`. -/
def columnsFrom (op : Operator) (left : Int) : Int × Int × Int :=
  let right := left + op.width - 1
  (left, (left + right) / 2, right)

end Operator

end WireDiagram
