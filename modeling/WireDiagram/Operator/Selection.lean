import WireDiagram.Label
import WireDiagram.Trace

/-!
# Selecting operators

How an instruction is drawn depends on where its controls lie. A control strictly between two
targets would be hidden by a box around the targets, so a plain box around all wires takes its
place; otherwise two targets of a swap become crosses, and anything else a box with its controls
outside.
-/

namespace WireDiagram

namespace Instruction

/-- The targets, ascending. -/
def sortedTargets (i : Instruction) : List Nat :=
  i.targets.mergeSort

/-- Whether some control lies strictly between the first and the last target. -/
def hasInnerControl (i : Instruction) : Bool :=
  i.controls.any fun c ↦
    i.targets.any (fun t ↦ decide (t < c)) && i.targets.any (fun t ↦ decide (c < t))

/-- Whether an instruction is a plain exchange of two wires. -/
def isSwap (i : Instruction) : Bool :=
  i.name == "swap" && i.params.isEmpty && i.targets.length == 2

/-- The label of an instruction. -/
def label (i : Instruction) : String :=
  Label.text i.name i.params

/-- How an instruction is drawn. -/
def shape (i : Instruction) : Shape :=
  if i.hasInnerControl then .plainBox i.label
  else if i.isSwap then .swap
  else .controlledBox i.label

/-- The operator of an instruction, not placed yet. -/
def operator (i : Instruction) : Operator where
  shape := i.shape
  wires := (i.sortedTargets ++ i.controls).map Int.ofNat
  targetCount := i.targets.length
  controlCount := i.controls.length
  column? := none
  glyphs := i.glyphs

end Instruction

/-- The operators of a trace, one for each instruction and in the same order. -/
def Trace.operators (t : Trace) : List Operator :=
  t.instructions.map Instruction.operator

end WireDiagram
