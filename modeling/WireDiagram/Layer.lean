import WireDiagram.Grid
import WireDiagram.Room

/-!
# Layers

A layer is a column of operators that share no wire, not even one that they only pass over.
Operators are packed in order, each into the earliest layer in which its whole span is free. Keeping
the span free, and not only the wires acted on, is what stops a line of one operator from running
through the box of another.

## The table of free layers

Packing keeps, for every wire, the first layer in which the wire is still free. The entry never
exceeds the number of layers, so an operator goes either into an existing layer or into the next new
one. Wires made by hand may be negative and are then counted from the last wire.
-/

namespace WireDiagram

/-- A column of operators. -/
structure Layer where
  /-- The place of the layer, from left to right. -/
  index : Int
  /-- The operators in the layer, by their places in the list of operators. -/
  members : List Int
  /-- The width of the widest member. -/
  width : Int
  deriving DecidableEq, Repr

namespace Layer

/-- A layer without members. -/
def empty (index : Int) : Layer :=
  ⟨index, [], 0⟩

/-- The layer with one more member of a given width. -/
def add (l : Layer) (member width : Int) : Layer :=
  { l with members := l.members ++ [member], width := max l.width width }

end Layer

/-- The width of all layers together. -/
def totalWidth (widths : List Int) : Int :=
  widths.foldl (· + ·) 0

theorem totalWidth_append (xs ys : List Int) :
    totalWidth (xs ++ ys) = totalWidth xs + totalWidth ys :=
  calc
    totalWidth (xs ++ ys) = ys.foldl (· + ·) (totalWidth xs + 0) := by
      rw [totalWidth, List.foldl_append, Int.add_zero]
      rfl
    _ = totalWidth xs + totalWidth ys := List.foldl_assoc

@[simp] theorem totalWidth_nil : totalWidth [] = 0 := rfl

@[simp] theorem totalWidth_singleton (width : Int) : totalWidth [width] = width :=
  Int.zero_add width

theorem totalWidth_cons (width : Int) (widths : List Int) :
    totalWidth (width :: widths) = width + totalWidth widths := by
  rw [← List.singleton_append, totalWidth_append, totalWidth_singleton]

/-- The places that the wires of a span have among `count` wires, if all of them have one. -/
def Span.indices? (count : Nat) (s : Span) : Option (List Nat) :=
  if -(count : Int) ≤ s.low ∧ s.high < count then
    some ((intRange s.low (s.high + 1)).filterMap (Position.resolve count))
  else none

/-- Operators packed so far. -/
structure Packing where
  /-- For every wire, the first layer in which it is free. -/
  free : List Nat
  /-- The layers, from left to right. -/
  layers : List Layer
  deriving DecidableEq, Repr

namespace Packing

/-- Nothing packed yet. -/
def start (count : Nat) : Packing :=
  ⟨List.replicate count 0, []⟩

/-- The first layer in which all the given wires are free. -/
def earliest (p : Packing) (wires : List Nat) : Nat :=
  (wires.map fun w ↦ p.free[w]?.getD 0).max?.getD 0

/-- The layers with one more member in layer `k`, which may be the next new one. -/
def addTo (layers : List Layer) (k : Nat) (member width : Int) : List Layer :=
  if k = layers.length then layers ++ [(Layer.empty k).add member width]
  else layers.modify k fun l ↦ l.add member width

/-- The places of the wires of a span in the table. -/
def places (p : Packing) (span : Span) : Except Fault (List Nat) :=
  match span.indices? p.free.length with
  | some wires => .ok wires
  | none => .error .noSuchPosition

/-- Pack a member of a given width into the earliest layer in which the given wires are free. The
whole span is taken from there on, also by wires that the member only passes over. -/
def put (p : Packing) (member : Nat) (width : Int) (wires : List Nat) : Packing :=
  let k := p.earliest wires
  ⟨wires.foldl (fun free w ↦ free.set w (k + 1)) p.free, addTo p.layers k member width⟩

/-- Pack one operator, known by its place in the list of operators. -/
def add (p : Packing) (member : Nat) (op : Operator) : Except Fault Packing :=
  match op.span? with
  | none => .error .emptyExtremum
  | some span => (p.places span).map (p.put member op.width)

/-- Pack operators in order, the first of them at place `member`. -/
def addAll (p : Packing) (member : Nat) : List Operator → Except Fault Packing
  | [] => .ok p
  | op :: ops => do
    let p' ← p.add member op
    p'.addAll (member + 1) ops

end Packing

/-- The layers of some operators on `count` wires. -/
def packLayers (ops : List Operator) (count : Nat) : Except Fault (List Layer) :=
  ((Packing.start count).addAll 0 ops).map Packing.layers

/-- The layers of some operators on a number of wires that is still to be checked: the table of free
layers is a list with an entry for every wire. A negative number of wires is none at all. -/
def packOn (ops : List Operator) (count : Int) : Except Fault (List Layer) := do
  Room.check Room.maxEntries count
  packLayers ops count.toNat

end WireDiagram
