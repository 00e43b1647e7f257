import WireDiagram.Instruction.Reading
import WireDiagram.Trace

/-!
# Recorders

A recorder takes instructions one at a time and keeps count of the wires they need. Closing it gives
a trace, and the recorder can go on afterwards.

## The count

The count starts as the caller's minimum, which is not checked until the record is closed; it is
replaced only when an instruction needs more. A minimum that cannot be compared with an integer
makes recording fail, but only after the instruction has been taken.
-/

namespace WireDiagram

/-- Instructions recorded so far. -/
structure Recorder where
  /-- The instructions, in order. -/
  instructions : List Instruction
  /-- The number of wires, as far as it is known. -/
  count : Value

namespace Recorder

/-- Nothing recorded yet; the trace is to have at least `count` wires. -/
def start (count : Value) : Recorder :=
  ⟨[], count⟩

/-- Record an instruction. The recorder that is returned holds it in any case; the fault says that
the count could not be kept. -/
def record (r : Recorder) (i : Instruction) : Recorder × Option Fault :=
  let taken : Recorder := { r with instructions := r.instructions ++ [i] }
  let need : Int := i.maxWire + 1
  match r.count.isBelow? need with
  | some true => ({ taken with count := .int need }, none)
  | some false => (taken, none)
  -- The instruction stays recorded: only the count is left as it was.
  | none => (taken, some .wrongType)

/-- Record an entry, which must be an instruction; the instruction recorded is returned. -/
def add (r : Recorder) : Entry → Recorder × Except Fault Instruction
  | .other v => (r, .error (.notAnInstruction v))
  | .instruction i => match r.record i with
    | (r', none) => (r', .ok i)
    | (r', some fault) => (r', .error fault)

/-- Read an instruction and record it. -/
def recordNew (r : Recorder) (name : String) (targets controls params : Value) :
    Recorder × Except Fault Instruction :=
  match Instruction.ofValues name targets controls params with
  | .ok i => r.add (.instruction i)
  | .error fault => (r, .error fault)

/-- The trace of what has been recorded, on exactly `count` wires; no count at all stands for the
recorder's own. -/
def close (r : Recorder) (count : Value) : Except Fault Trace :=
  match count with
  | .null => Trace.ofInstructions r.count r.instructions
  | count => Trace.ofInstructions count r.instructions

end Recorder

end WireDiagram
