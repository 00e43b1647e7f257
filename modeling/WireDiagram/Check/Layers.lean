import WireDiagram.Draft.Layer

/-!
# Checking layers

Layers are sound when the members of each share no wire, every operator is in exactly one layer, and
every layer is as wide as its widest member. The checks run layer by layer, and within one layer in
this order: members two by two, repetition, width. Operators in no layer are looked for last.

What is checked are drafts, because a check is of use only where anything may have been written. The
place of a layer is never looked at; it only names the layer in messages.
-/

namespace WireDiagram.LayerCheck

/-! ## Members -/

/-- The operator that a member of a layer is. -/
def operatorAt (ops : List Operator) (member : Value) : Except Fault Operator := do
  match Position.get? ops (← member.toInt) with
  | some op => .ok op
  | none => .error .noSuchPosition

/-- The span of an operator, which must have wires. -/
def spanOf (op : Operator) : Except Fault Span :=
  match op.span? with
  | some span => .ok span
  | none => .error .emptyExtremum

/-- Check that two members of layer `index` share no wire. -/
def checkPair (ops : List Operator) (index a b : Value) : Except Fault Unit := do
  let first ← operatorAt ops a
  let second ← operatorAt ops b
  let s ← spanOf first
  let t ← spanOf second
  if s.meets t then .error (.overlappingMembers index (.ofOperator first) (.ofOperator second))
  else .ok ()

/-- Check a member against all later ones, then the later ones among themselves. -/
def checkPairs (ops : List Operator) (index : Value) : List Value → Except Fault Unit
  | [] => .ok ()
  | a :: rest => do
    rest.forM (checkPair ops index a)
    checkPairs ops index rest

/-- Check that no member has been seen before, in this layer or an earlier one, and remember them
all. -/
def checkUnseen (seen : List Value) : List Value → Except Fault (List Value)
  | [] => .ok seen
  | a :: rest =>
    if seen.any a.same then .error (.repeatedMember a) else checkUnseen (a :: seen) rest

/-- Check that the width of layer `index` is that of its widest member, or zero. -/
def checkWidth (ops : List Operator) (index width : Value) (members : List Value) :
    Except Fault Unit := do
  let widths ← members.mapM fun member ↦ (operatorAt ops member).map Operator.width
  if width.same (.int (widths.max?.getD 0)) then .ok ()
  else .error (.wrongLayerWidth index width widths)

/-! ## Layers -/

/-- Check one layer; the members seen so far are handed on. -/
def checkLayer (ops : List Operator) (seen : List Value) (layer : LayerDraft) :
    Except Fault (List Value) := do
  let members ← layer.members.members
  checkPairs ops layer.index members
  let seen' ← checkUnseen seen members
  checkWidth ops layer.index layer.width members
  .ok seen'

/-- Whether a place is among the members seen. -/
def isSeen (seen : List Value) (place : Int) : Bool :=
  seen.any (Value.int place).same

/-- Check that the members seen are the places of all operators, and nothing else. -/
def checkAllSeen (ops : List Operator) (seen : List Value) : Except Fault Unit :=
  let places := (List.range ops.length).map Int.ofNat
  if places.all (isSeen seen) && seen.all fun member ↦ places.any fun k ↦ member.same (.int k) then
    .ok ()
  else .error (.missingMembers (places.filter fun k ↦ !isSeen seen k))

/-- Check the layers of some operators. -/
def checkLayers (layers : List LayerDraft) (ops : List Operator) : Except Fault Unit := do
  let seen ← layers.foldlM (checkLayer ops) []
  checkAllSeen ops seen

end WireDiagram.LayerCheck
