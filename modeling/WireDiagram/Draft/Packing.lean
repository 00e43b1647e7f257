import WireDiagram.Draft.Columns
import WireDiagram.Layer

/-!
# Packing drafts

Operators written by hand are packed like any others, provided that they cover a span of wires that
the table has and that they have a width. The span is looked up before the width.
-/

namespace WireDiagram

namespace Packing

/-- Pack one draft, known by its place in the list of operators. -/
def addDraft (p : Packing) (member : Nat) (op : OperatorDraft) : Except Fault Packing := do
  let wires ← p.places (← op.span)
  .ok (p.put member (← op.width) wires)

/-- Pack drafts in order, the first of them at place `member`. -/
def addDrafts (p : Packing) (member : Nat) : List OperatorDraft → Except Fault Packing
  | [] => .ok p
  | op :: ops => do
    let p' ← p.addDraft member op
    p'.addDrafts (member + 1) ops

theorem addDraft_ofOperator (p : Packing) (member : Nat) (op : Operator) :
    p.addDraft member (.ofOperator op) = p.add member op := by
  simp only [addDraft, add, OperatorDraft.span_ofOperator, OperatorDraft.width_ofOperator, bind,
    Except.bind]
  cases op.span? with
  | none => rfl
  | some span => cases h : p.places span <;> simp [h, Except.map]

theorem addDrafts_ofOperator (p : Packing) (member : Nat) (ops : List Operator) :
    p.addDrafts member (ops.map .ofOperator) = p.addAll member ops := by
  induction ops generalizing p member with
  | nil => rfl
  | cons op ops ih =>
    simp only [List.map_cons, addDrafts, addAll, addDraft_ofOperator, bind, Except.bind]
    cases p.add member op with
    | ok p' => exact ih p' (member + 1)
    | error fault => rfl

end Packing

/-- The layers of some drafts on a number of wires that may be any value. -/
def packDrafts (ops : List OperatorDraft) (count : Value) : Except Fault (List Layer) := do
  let n ← count.toInt
  Room.check Room.maxEntries n
  ((Packing.start n.toNat).addDrafts 0 ops).map Packing.layers

/-- Operators are packed alike whether they are written down or not. -/
theorem packDrafts_ofOperator (ops : List Operator) (count : Int) :
    packDrafts (ops.map .ofOperator) (.int count) = packOn ops count := by
  simp only [packDrafts, packOn, packLayers, Value.toInt_int, Packing.addDrafts_ofOperator, bind,
    Except.bind]

end WireDiagram
