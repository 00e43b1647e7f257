import WireDiagram.Operator

/-!
# Operators written by hand

A draft is an operator as somebody wrote it down: wires, counts, label and column may be any values
at all. Nothing is checked beforehand, so what is wrong with a draft shows only when it is used, and
what is never looked at never matters.

Messages speak of operators as drafts, since a draft is what they have to show as it was written.
-/

namespace WireDiagram

/-- How an operator written by hand is drawn. -/
inductive ShapeDraft where
  /-- One box around every wire. -/
  | plainBox (label : Value)
  /-- A box around the targets, with the controls outside of it. -/
  | controlledBox (label : Value)
  /-- Two crosses joined by a line. -/
  | swap

namespace ShapeDraft

/-- The draft that writes down a shape. -/
def ofShape : Shape → ShapeDraft
  | .plainBox label => .plainBox (.text label)
  | .controlledBox label => .controlledBox (.text label)
  | .swap => .swap

/-- What stands for the text inside a box; a swap has none. -/
def label? : ShapeDraft → Option Value
  | .plainBox label => some label
  | .controlledBox label => some label
  | .swap => none

/-- The name of a shape in messages. -/
def name : ShapeDraft → String
  | .plainBox _ => "PlainBox"
  | .controlledBox _ => "ControlledBox"
  | .swap => "Swap"

end ShapeDraft

/-- An operator written by hand. -/
structure OperatorDraft where
  /-- How it is drawn. -/
  shape : ShapeDraft
  /-- What stands for the targets followed by the controls. -/
  wires : List Value
  /-- What stands for the number of targets. -/
  targetCount : Value
  /-- What stands for the number of controls. -/
  controlCount : Value
  /-- What stands for the leftmost column; nothing does until the operator has been placed. -/
  column : Value

namespace OperatorDraft

/-- The draft that writes down an operator, each wire the way it was written. -/
def ofOperator (op : Operator) : OperatorDraft where
  shape := .ofShape op.shape
  wires := op.wires.map op.written
  targetCount := .int op.targetCount
  controlCount := .int op.controlCount
  column := match op.column? with
    | some left => .int left
    | none => .null

/-- The text of an operator inside a message: its shape and every field. -/
def describe (op : OperatorDraft) : String :=
  let label := match op.shape.label? with
    | none => ""
    | some label => ", label=" ++ label.describe
  op.shape.name ++ "(wires=" ++ Listing.parenthesised (op.wires.map Value.describe) ++
    ", num_targets=" ++ op.targetCount.describe ++
    ", num_controls=" ++ op.controlCount.describe ++
    ", _left_col=" ++ op.column.describe ++ label ++ ")"

end OperatorDraft

end WireDiagram
