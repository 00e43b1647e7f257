import WireDiagram.Fault

/-!
# Traces

A trace is a finite sequence of instructions on a fixed number of wires. Every wire in use is one of
them, and this is part of the type.

## What may be handed in

A trace is built from a count that may be any value and from entries that need not be instructions;
the count is checked first, then the entries in order, and the first entry at fault is the one
reported.
-/

namespace WireDiagram

/-- Instructions in order, on `wireCount` wires. -/
structure Trace where
  /-- The number of wires. -/
  wireCount : Nat
  /-- The instructions, in order. -/
  instructions : List Instruction
  /-- Every wire in use is one of the wires. -/
  wires_lt : ∀ i ∈ instructions, ∀ w ∈ i.wires, w < wireCount

/-- What may stand where an instruction is expected. -/
inductive Entry where
  /-- An instruction. -/
  | instruction (i : Instruction)
  /-- Any other value. -/
  | other (v : Value)

namespace Entry

/-- Whether two entries are equal; an instruction never equals another value. -/
def same : Entry → Entry → Bool
  | .instruction i, .instruction j => i.same j
  | .other v, .other w => v.same w
  | _, _ => false

end Entry

namespace Trace

/-! ## Checks -/

/-- The number of wires that a value is: an integer, not a truth value, and not negative. -/
def checkCount : Value → Except Fault Nat
  | .int n => if n < 0 then .error (.badCount (.int n)) else .ok n.toNat
  | .glyph g => .ok g.rank
  | v => .error (.badCount v)

/-- The first wire of an instruction that a trace on `count` wires does not have. -/
def wireBeyond? (count : Nat) (i : Instruction) : Option Nat :=
  i.wires.find? fun w ↦ decide (count ≤ w)

theorem wireBeyond?_eq_none_iff {count : Nat} {i : Instruction} :
    wireBeyond? count i = none ↔ ∀ w ∈ i.wires, w < count := by
  simp [wireBeyond?]

/-- The instructions among entries that are nothing else, the first of them at position `position`.
The count is also given as it was written, for the refusal of a wire beyond it. -/
def checkEntries (written : Value) (count : Nat) :
    Nat → List Entry → Except Fault { is : List Instruction // ∀ i ∈ is, ∀ w ∈ i.wires, w < count }
  | _, [] => .ok ⟨[], by simp⟩
  | position, .other v :: _ => .error (.notAnEntry position v)
  | position, .instruction i :: rest =>
    match h : wireBeyond? count i with
    | some w => .error (.wireBeyondCount position i w written)
    | none => do
      let ⟨is, his⟩ ← checkEntries written count (position + 1) rest
      .ok ⟨i :: is, by simpa using ⟨wireBeyond?_eq_none_iff.1 h, his⟩⟩

/-- The trace with the given count and entries. -/
def ofEntries (count : Value) (entries : List Entry) : Except Fault Trace := do
  let n ← checkCount count
  let ⟨is, his⟩ ← checkEntries count n 0 entries
  .ok ⟨n, is, his⟩

/-- The trace with the given count and instructions. -/
def ofInstructions (count : Value) (is : List Instruction) : Except Fault Trace :=
  ofEntries count (is.map .instruction)

/-! ## Access -/

/-- The instruction at a position counted from either end. -/
def get (t : Trace) (i : Int) : Except Fault Instruction :=
  match Position.get? t.instructions i with
  | some inst => .ok inst
  | none => .error .noSuchPosition

end Trace

end WireDiagram
