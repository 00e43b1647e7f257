import WireDiagram.Layer
import WireDiagram.Operator.Columns

/-!
# Placement

Layers stand side by side, each as wide as it says, and every member is centred in its layer: what
room is left over is shared out evenly, an odd column going to the right.

Layers may be written by hand, and then a member may be missing or may have been placed before.
Placement stops there, and the operators that are returned show how far it came.
-/

namespace WireDiagram

/-- Operators after placement. -/
structure Placement where
  /-- The operators, placed or not. -/
  operators : List Operator
  /-- The width of all layers, or what stopped the placement. -/
  total : Except Fault Int

namespace Placement

/-- The column that centres an operator in a layer that starts at `offset`. -/
def centred (offset width : Int) (op : Operator) : Int :=
  offset + (width - op.width) / 2

/-- Place one member of a layer. -/
def placeMember (offset width : Int) (ops : List Operator) (member : Int) :
    Except Fault (List Operator) :=
  match Position.resolve ops.length member with
  | none => .error .noSuchPosition
  | some k => match ops[k]? with
    | none => .error .noSuchPosition
    | some op => (op.place (centred offset width op)).map fun placed ↦ ops.set k placed

/-- Place the members of a layer in order. -/
def placeMembers (offset width : Int) (ops : List Operator) :
    List Int → List Operator × Option Fault
  | [] => (ops, none)
  | member :: members => match placeMember offset width ops member with
    | .ok ops' => placeMembers offset width ops' members
    | .error fault => (ops, some fault)

/-- Place the members of all layers, the first of them at column `offset`. -/
def placeFrom (offset : Int) (ops : List Operator) : List Layer → Placement
  | [] => ⟨ops, .ok offset⟩
  | layer :: layers => match placeMembers offset layer.width ops layer.members with
    | (ops', none) => placeFrom (offset + layer.width) ops' layers
    | (ops', some fault) => ⟨ops', .error fault⟩

/-- Place the members of all layers. -/
def ofLayers (layers : List Layer) (ops : List Operator) : Placement :=
  placeFrom 0 ops layers

end Placement

end WireDiagram
