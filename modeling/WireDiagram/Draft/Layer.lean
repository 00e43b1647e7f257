import WireDiagram.Layer
import WireDiagram.Value.Arithmetic

/-!
# Layers written by hand

A draft is a layer as somebody wrote it down: its place, its members and its width may be any values
at all. What is wrong with a draft shows only when it is used, so nothing is checked beforehand, and
what is never looked at never matters.
-/

namespace WireDiagram

/-- A layer written by hand. -/
structure LayerDraft where
  /-- What stands for the place of the layer. -/
  index : Value
  /-- What stands for its members. -/
  members : Value
  /-- What stands for its width. -/
  width : Value

namespace LayerDraft

/-- The draft that writes down a layer. -/
def ofLayer (l : Layer) : LayerDraft :=
  ⟨.int l.index, .list (l.members.map .int), .int l.width⟩

/-- The draft with one more member of a given width. -/
def add (d : LayerDraft) (member width : Value) : Except Fault LayerDraft :=
  match d.members with
  | .list members =>
    (d.width.larger width).map fun widest ↦ ⟨d.index, .list (members ++ [member]), widest⟩
  | _ => .error .wrongType

/-- The drafts that arise by adding members, given with their widths, one after the other. -/
def addEach (d : LayerDraft) : List (Value × Value) → Except Fault (List LayerDraft)
  | [] => .ok []
  | (member, width) :: more => do
    let next ← d.add member width
    .ok (next :: (← next.addEach more))

/-- What the list that a draft was made from holds after members have been added. A draft takes the
list for its own, so the members are in it too; a draft made without a list has one of its own. -/
def sharedMembers (given? : Option Value) (added : List Value) : Value :=
  match given? with
  | some (.list given) => .list (given ++ added)
  | some other => other
  | none => .list []

end LayerDraft

end WireDiagram
