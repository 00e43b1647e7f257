import WireDiagram.Draft.Columns
import WireDiagram.Draft.Layer
import WireDiagram.Placement

/-!
# Placing drafts

Layers and operators written by hand are placed like any others, as far as they can be: member by
member, each of which must be an operator with a width before the width of the layer is looked at,
and then one without a column. A layer without members still takes the room that its width says.
-/

namespace WireDiagram

/-- Drafts of operators after placement. -/
structure PlacementDraft where
  /-- The operators, placed or not. -/
  operators : List OperatorDraft
  /-- The width of all layers, or what stopped the placement. -/
  total : Except Fault Value

namespace PlacementDraft

/-- The draft of a placement. -/
def ofPlacement (p : Placement) : PlacementDraft :=
  ⟨p.operators.map .ofOperator, p.total.map .int⟩

/-- The column that centres an operator in a layer that starts at `offset`. -/
def centred (offset width : Value) (op : OperatorDraft) : Except Fault Value := do
  offset.plus (← (← width.minus (.int (← op.width))).halved)

/-- Place one member of a layer. -/
def placeMember (offset width : Value) (ops : List OperatorDraft) (member : Value) :
    Except Fault (List OperatorDraft) := do
  match Position.resolve ops.length (← member.toInt) with
  | none => .error .noSuchPosition
  | some k => match ops[k]? with
    | none => .error .noSuchPosition
    | some op => do
      let placed ← op.place (← centred offset width op)
      .ok (ops.set k placed)

/-- Place the members of a layer in order. -/
def placeMembers (offset width : Value) (ops : List OperatorDraft) :
    List Value → List OperatorDraft × Option Fault
  | [] => (ops, none)
  | member :: members => match placeMember offset width ops member with
    | .ok ops' => placeMembers offset width ops' members
    | .error fault => (ops, some fault)

/-- Place one layer at column `offset`; the column after it is returned with the operators. -/
def placeLayer (offset : Value) (ops : List OperatorDraft) (layer : LayerDraft) : PlacementDraft :=
  match layer.members.members with
  | .error fault => ⟨ops, .error fault⟩
  | .ok members => match placeMembers offset layer.width ops members with
    | (ops', none) => ⟨ops', offset.plus layer.width⟩
    | (ops', some fault) => ⟨ops', .error fault⟩

/-- Place layers side by side, the first of them at column `offset`. -/
def placeFrom (offset : Value) (ops : List OperatorDraft) : List LayerDraft → PlacementDraft
  | [] => ⟨ops, .ok offset⟩
  | layer :: layers => match placeLayer offset ops layer with
    | ⟨ops', .ok next⟩ => placeFrom next ops' layers
    | ⟨ops', .error fault⟩ => ⟨ops', .error fault⟩

/-- Place the members of all layers. -/
def ofLayers (layers : List LayerDraft) (ops : List OperatorDraft) : PlacementDraft :=
  placeFrom (.int 0) ops layers

/-! ## Drafts of layers and operators -/

theorem centred_ofOperator (offset width : Int) (op : Operator) :
    centred (.int offset) (.int width) (.ofOperator op) =
      .ok (.int (Placement.centred offset width op)) := by
  simp only [centred, OperatorDraft.width_ofOperator, bind, Except.bind, Value.minus_int,
    Value.halved_int, Value.plus_int]
  rfl

theorem placeMember_ofOperator (offset width : Int) (ops : List Operator) (member : Int) :
    placeMember (.int offset) (.int width) (ops.map .ofOperator) (.int member) =
      (Placement.placeMember offset width ops member).map (List.map .ofOperator) := by
  simp only [placeMember, Placement.placeMember, Value.toInt_int, bind, Except.bind,
    List.length_map, List.getElem?_map]
  cases Position.resolve ops.length member with
  | none => rfl
  | some k => cases hk : ops[k]? with
    | none => simp [hk, Except.map]
    | some op =>
      simp only [hk, Option.map_some, centred_ofOperator, OperatorDraft.place_ofOperator]
      cases op.place (Placement.centred offset width op) <;> simp [Except.map, List.map_set]

theorem placeMembers_ofOperator (offset width : Int) (ops : List Operator) (members : List Int) :
    placeMembers (.int offset) (.int width) (ops.map .ofOperator) (members.map .int) =
      ((Placement.placeMembers offset width ops members).1.map .ofOperator,
        (Placement.placeMembers offset width ops members).2) := by
  induction members generalizing ops with
  | nil => rfl
  | cons member members ih =>
    rw [List.map_cons, placeMembers, Placement.placeMembers, placeMember_ofOperator]
    cases Placement.placeMember offset width ops member with
    | ok ops' => exact ih ops'
    | error fault => rfl

theorem placeFrom_ofOperator (offset : Int) (ops : List Operator) (layers : List Layer) :
    placeFrom (.int offset) (ops.map .ofOperator) (layers.map .ofLayer) =
      ofPlacement (Placement.placeFrom offset ops layers) := by
  induction layers generalizing offset ops with
  | nil => rfl
  | cons layer layers ih =>
    simp only [List.map_cons, placeFrom, Placement.placeFrom, placeLayer, LayerDraft.ofLayer,
      Value.members, placeMembers_ofOperator]
    rcases Placement.placeMembers offset layer.width ops layer.members with ⟨ops', _ | fault⟩
    · exact ih (offset + layer.width) ops'
    · rfl

/-- Operators are placed alike whether they and their layers are written down or not. -/
theorem ofLayers_ofOperator (layers : List Layer) (ops : List Operator) :
    ofLayers (layers.map .ofLayer) (ops.map .ofOperator) =
      ofPlacement (Placement.ofLayers layers ops) :=
  placeFrom_ofOperator 0 ops layers

end PlacementDraft

end WireDiagram
