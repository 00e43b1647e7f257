import WireDiagram.Instruction.Reading
import WireDiagram.Trace
import WireDiagram.Value.Arithmetic

/-!
# Random traces

A random trace is made from the answers of a source of randomness. What is asked for next depends on
the answers before, so sampling is a tree: at a `Sampler.ask` node a request is made and the answer
picks the branch. A run follows the answers of a list, and what is assumed of a source is a
statement about requests and answers along the run.

## The requests for one instruction

How many targets, how many controls, which wires, which name, how many parameters, which parameters:
in this order, and the bounds of a request depend on the answers before it. The wires are drawn
together, so that targets and controls are distinct.

The numbers that a caller gives are looked at only when they are needed: the number of instructions
first, the other two for the bounds of requests, and whether there can be so many wires at all when
the trace is made.
-/

namespace WireDiagram

/-! ## Requests and answers -/

/-- What a source of randomness is asked for. -/
inductive Request where
  /-- An integer from `low` up to, not including, `high`. -/
  | integer (low : Int) (high : Value)
  /-- `size` different integers from zero up to, not including, `bound`. -/
  | distinct (bound : Value) (size : Int)
  /-- The place of one of some names. -/
  | name (names : List String)
  /-- `size` reals between `low` and `high`. -/
  | reals (low high : Float) (size : Int)

/-- A computation that asks a source of randomness. -/
inductive Sampler (α : Type) where
  /-- Nothing more is asked for. -/
  | done (result : Except Fault α)
  /-- Something is asked for, and the rest depends on the answer. -/
  | ask (request : Request) (next : Value → Sampler α)

namespace Sampler

variable {α β : Type}

/-- One computation after another, which may use its result; nothing follows a fault. -/
def bind : Sampler α → (α → Sampler β) → Sampler β
  | .done (.ok a), f => f a
  | .done (.error fault), _ => .done (.error fault)
  | .ask request next, f => .ask request fun answer ↦ (next answer).bind f

instance : Monad Sampler where
  pure a := .done (.ok a)
  bind := bind

/-- Ask for something and read the answer. -/
def request (r : Request) (read : Value → Except Fault α) : Sampler α :=
  .ask r fun answer ↦ .done (read answer)

/-- The requests made and the result, when the answers are those of a list. A list that is too short
is a fault. -/
def run : Sampler α → List Value → Except Fault (List Request × α)
  | .done result, _ => result.map fun a ↦ ([], a)
  | .ask _ _, [] => .error .noSuchPosition
  | .ask r next, answer :: answers =>
    ((next answer).run answers).map fun (requests, a) ↦ (r :: requests, a)

end Sampler

namespace Sampling

/-! ## Answers -/

/-- The integers that an answer lists. -/
def toIntegers (v : Value) : Except Fault (List Int) := do
  (← v.members).mapM Value.readInt

/-- The name at the place that an answer stands for. -/
def toName (names : List String) (v : Value) : Except Fault String := do
  match Position.get? names (← v.toInt) with
  | some name => .ok name
  | none => .error .noSuchPosition

/-- The reals that an answer lists. -/
def toReals (v : Value) : Except Fault (List Float) := do
  (← v.members).mapM Value.readFloat

/-! ## One instruction -/

/-- The names of gates to choose from. -/
def gateNames : List String :=
  ["h", "x", "rx", "swap", "u3", "toffoli"]

/-- The double nearest to the number of radians in half a turn. -/
def halfTurn : Float :=
  Float.ofBits 0x400921FB54442D18

/-- The bound of the request for the number of targets on `count` wires. -/
def targetBound (count : Value) : Except Fault Value := do
  (← (Value.int 2).smaller count).plus (.int 1)

/-- The bound of the request for the number of controls: so many must be left beside the targets. -/
def controlBound (count maxControls : Value) (targetCount : Int) : Except Fault Value := do
  (← maxControls.smaller (← count.minus (.int targetCount))).plus (.int 1)

/-- Sample one instruction on `count` wires with at most `maxControls` controls. A swap takes no
parameters, though they are drawn like those of any other gate. -/
def instruction (count maxControls : Value) : Sampler Instruction := do
  let targetBound ← .done (targetBound count)
  let targetCount ← .request (.integer 1 targetBound) Value.readInt
  let controlBound ← .done (controlBound count maxControls targetCount)
  let controlCount ← .request (.integer 0 controlBound) Value.readInt
  let wires ← .request (.distinct count (targetCount + controlCount)) toIntegers
  let name ← .request (.name gateNames) (toName gateNames)
  let paramCount ← .request (.integer 0 (.int 3)) Value.readInt
  let params ← .request (.reals (-halfTurn) halfTurn paramCount) toReals
  .done (Instruction.make? name
    ((Position.slice wires 0 targetCount).map .int)
    ((Position.slice wires targetCount wires.length).map .int)
    (if name = "swap" then [] else params))

/-- Sample some instructions. -/
def instructions (count maxControls : Value) : Nat → Sampler (List Instruction)
  | 0 => pure []
  | n + 1 => do
    let first ← instruction count maxControls
    let rest ← instructions count maxControls n
    pure (first :: rest)

/-- The most controls of an instruction when no other number is given. -/
def standardMaxControls : Value := .int 2

/-- Sample a trace of `size` instructions on `count` wires; a size below zero stands for zero. -/
def trace (count size maxControls : Value) : Sampler Trace := do
  let n ← .done size.toInt
  let is ← instructions count maxControls n.toNat
  .done (Trace.ofInstructions count is)

end Sampling

end WireDiagram
