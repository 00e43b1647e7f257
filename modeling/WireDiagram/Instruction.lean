import WireDiagram.Value.Wire

/-!
# Instructions

An instruction names a gate, the wires it acts on and the wires that condition it. That the wires
fit together is part of the type: whoever holds an instruction knows that it has a target and that
no wire is used twice.

A wire is a number, also where it was written as a glyph; the glyphs are kept for the text of the
instruction.
-/

namespace WireDiagram

/-! ## Spans -/

/-- The wires from `low` to `high`, both included. -/
structure Span where
  /-- The first wire. -/
  low : Int
  /-- The last wire. -/
  high : Int
  deriving DecidableEq, Repr

/-- Whether two spans have a wire in common. -/
def Span.meets (s t : Span) : Bool :=
  s.low ≤ t.high && t.low ≤ s.high

theorem Span.meets_iff {s t : Span} : s.meets t ↔ s.low ≤ t.high ∧ t.low ≤ s.high := by
  simp [Span.meets]

theorem Span.meets_comm (s t : Span) : s.meets t = t.meets s := by
  simp [Span.meets, Bool.and_comm]

/-! ## Instructions -/

/-- One gate applied to some wires. -/
structure Instruction where
  /-- The name of the gate. -/
  name : String
  /-- The wires acted on, in the order given. -/
  targets : List Nat
  /-- The conditioning wires, in the order given. -/
  controls : List Nat
  /-- The real parameters of the gate. -/
  params : List Float
  /-- The glyphs that wires were written as; any other wire was written as a number. -/
  glyphs : List Glyph
  /-- Something is acted on. -/
  targets_ne_nil : targets ≠ []
  /-- No target is listed twice. -/
  targets_nodup : targets.Nodup
  /-- No control is listed twice. -/
  controls_nodup : controls.Nodup
  /-- No wire is both target and control. -/
  disjoint : ∀ w ∈ targets, w ∉ controls

namespace Instruction

/-- All wires, targets first. -/
def wires (i : Instruction) : List Nat :=
  i.targets ++ i.controls

theorem wires_ne_nil (i : Instruction) : i.wires ≠ [] := by
  simp [wires, i.targets_ne_nil]

theorem wires_nodup (i : Instruction) : i.wires.Nodup :=
  List.nodup_append.2 ⟨i.targets_nodup, i.controls_nodup, fun w hw _ hv h ↦
    i.disjoint w hw (h ▸ hv)⟩

/-- The first wire used. -/
def minWire (i : Instruction) : Nat :=
  i.wires.min?.getD 0

/-- The last wire used. -/
def maxWire (i : Instruction) : Nat :=
  i.wires.max?.getD 0

/-- The wires from the first to the last one used. -/
def span (i : Instruction) : Span :=
  ⟨i.minWire, i.maxWire⟩

/-! ## Text and equality -/

/-- What a wire was written as. -/
def written (i : Instruction) (wire : Nat) : Value :=
  .ofWire i.glyphs wire

/-- Wires the way they were written, separated by commas. -/
def wireList (i : Instruction) (wires : List Nat) : String :=
  Listing.commas (wires.map fun wire ↦ (i.written wire).shown)

/-- The name, the controls in brackets if there are any, and the targets in parentheses. -/
def text (i : Instruction) : String :=
  if i.controls.isEmpty then i.name ++ "(" ++ i.wireList i.targets ++ ")"
  else i.name ++ "[" ++ i.wireList i.controls ++ "](" ++ i.wireList i.targets ++ ")"

/-- Whether two instructions agree in name, wires and parameters. The way a wire was written makes
no difference. Parameters are compared as numbers, so an instruction with a parameter that is no
number differs even from itself. -/
def same (i j : Instruction) : Bool :=
  i.name == j.name && i.targets == j.targets && i.controls == j.controls && i.params == j.params

end Instruction

end WireDiagram
