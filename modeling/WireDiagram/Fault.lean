import WireDiagram.Draft.Operator

/-!
# Faults

Everything that can go wrong, as data. A fault says what was found and where; its wording is a
function of it, written once, and so is the kind that callers tell faults apart by.

## Faults with and without a wording

Most faults are refusals of the library and have a message. The last six constructors are failures
of an elementary operation — a position outside a list, a value of the wrong type — and carry no
more than their kind.
-/

namespace WireDiagram

/-- The two lists of wires of an instruction. -/
inductive Role where
  /-- The wires acted on. -/
  | targets
  /-- The conditioning wires. -/
  | controls
  deriving DecidableEq, Repr

/-- The name of a role in messages. -/
def Role.text : Role → String
  | .targets => "targets"
  | .controls => "controls"

/-- What can go wrong. -/
inductive Fault where
  /-- An instruction acts on no wire. -/
  | noTargets (name : String)
  /-- A wire is no integer. -/
  | notAWire (role : Role) (found : Value)
  /-- A wire is negative. -/
  | negativeWire (role : Role) (wire : Int)
  /-- A wire is listed twice. -/
  | repeatedWire (role : Role) (wires : List Value)
  /-- Some wires are both targets and controls. -/
  | sharedWires (name : String) (wires : List Value)
  /-- The number of wires of a trace is no natural number. -/
  | badCount (found : Value)
  /-- A member of a trace is no instruction. -/
  | notAnEntry (position : Nat) (found : Value)
  /-- What is to be recorded is no instruction. -/
  | notAnInstruction (found : Value)
  /-- A trace has too few wires for one of its instructions. -/
  | wireBeyondCount (position : Nat) (instruction : Instruction) (wire : Nat) (count : Value)
  /-- A canvas is to have a negative width. -/
  | negativeWidth (width : Value)
  /-- A canvas has no such wire. -/
  | wireOffCanvas (wire count : Value)
  /-- A canvas has no such cell. -/
  | cellOffCanvas (row col : Value) (height : Nat) (width : Value)
  /-- An operator is to be placed a second time. -/
  | alreadyPlaced (operator : OperatorDraft) (col : Value)
  /-- The columns of an operator are asked for before it has any. -/
  | notPlaced (operator : OperatorDraft)
  /-- A page budget is no positive integer. -/
  | badBudget (found : Value)
  /-- Two members of a layer have a wire in common. -/
  | overlappingMembers (layer : Value) (first second : OperatorDraft)
  /-- An operator is a member of a layer for the second time. -/
  | repeatedMember (member : Value)
  /-- The width of a layer is not that of its widest member. -/
  | wrongLayerWidth (layer width : Value) (found : List Int)
  /-- Some operators are in no layer. -/
  | missingMembers (members : List Int)
  /-- A page ends within a row. -/
  | unfinishedPage (page : Nat)
  /-- A page has too few or too many rows. -/
  | wrongRowCount (page found want : Nat)
  /-- A row that goes on does not say so. -/
  | unmarkedRow (row : String) (page : Nat)
  /-- A row is wider than the budget. -/
  | wideRow (row : String) (page width : Nat) (budget : Value)
  /-- The height of a canvas does not fit the number of wires. -/
  | wrongCanvasHeight (height wires : Nat)
  /-- The width of a canvas is not the sum of the widths of the layers. -/
  | wrongCanvasWidth
  /-- Two drawings of one trace differ. -/
  | unstableDrawing
  /-- The number of rows that go on does not fit the number of pages. -/
  | wrongMarkCount
  /-- A list has no such position. -/
  | noSuchPosition
  /-- A value is of a type that the operation is not defined on. -/
  | wrongType
  /-- A value is of the right type, but one that the operation is not defined on. -/
  | badValue
  /-- An empty list has no least or greatest member. -/
  | emptyExtremum
  /-- A number is too large for its use. -/
  | tooLarge
  /-- There is no room for a list or a text of a length. -/
  | noRoom

namespace Fault

/-! ## Kinds -/

/-- What callers tell faults apart by. -/
inductive Kind where
  /-- An ill-formed instruction or trace. -/
  | illFormed
  /-- A wire that a trace or a canvas does not have. -/
  | wireOutOfRange
  /-- A value that does not do. -/
  | value
  /-- A position outside of what is addressed. -/
  | position
  /-- A value of the wrong type. -/
  | type
  /-- A number beyond what can be represented, or a length beyond what there is room for. -/
  | overflow
  /-- A diagram that fails a check. -/
  | check
  deriving DecidableEq, Repr

/-- The kinds that a kind is a case of, itself included: a wire out of range is an ill-formed trace
and a position outside, and an ill-formed trace is a value that does not do. -/
def Kind.generalisations : Kind → List Kind
  | .wireOutOfRange => [.wireOutOfRange, .illFormed, .value, .position]
  | .illFormed => [.illFormed, .value]
  | k => [k]

/-- Whether every fault of kind `k` is also one of kind `l`. -/
def Kind.isA (k l : Kind) : Bool :=
  k.generalisations.contains l

/-- The kind of a fault. -/
def kind : Fault → Kind
  | .noTargets _ => .illFormed
  | .notAWire _ _ => .illFormed
  | .negativeWire _ _ => .wireOutOfRange
  | .repeatedWire _ _ => .illFormed
  | .sharedWires _ _ => .illFormed
  | .badCount _ => .illFormed
  | .notAnEntry _ _ => .illFormed
  | .notAnInstruction _ => .illFormed
  | .wireBeyondCount _ _ _ _ => .wireOutOfRange
  | .negativeWidth _ => .value
  | .wireOffCanvas _ _ => .wireOutOfRange
  | .cellOffCanvas _ _ _ _ => .position
  | .alreadyPlaced _ _ => .value
  | .notPlaced _ => .value
  | .badBudget _ => .value
  | .overlappingMembers _ _ _ => .check
  | .repeatedMember _ => .check
  | .wrongLayerWidth _ _ _ => .check
  | .missingMembers _ => .check
  | .unfinishedPage _ => .check
  | .wrongRowCount _ _ _ => .check
  | .unmarkedRow _ _ => .check
  | .wideRow _ _ _ _ => .check
  | .wrongCanvasHeight _ _ => .check
  | .wrongCanvasWidth => .check
  | .unstableDrawing => .check
  | .wrongMarkCount => .check
  | .noSuchPosition => .position
  | .wrongType => .type
  | .badValue => .value
  | .emptyExtremum => .value
  | .tooLarge => .overflow
  | .noRoom => .overflow

/-! ## Wording -/

/-- The message of a fault; a failure of an elementary operation has none. Integers are written out
whatever their length, so a limit on the digits of a printed integer is taken to be off. -/
def message? : Fault → Option String
  | .noTargets name => some s!"Instruction {Quoted.quote name} has no target wires."
  | .notAWire role found =>
    some s!"{role.text} must be integer wire ids, found {found.describe}."
  | .negativeWire role wire => some s!"Negative wire id {wire} in {role.text}."
  | .repeatedWire role wires =>
    some (s!"{role.text} must not repeat a wire id, found " ++
      Listing.parenthesised (wires.map Value.describe) ++ ".")
  | .sharedWires name wires =>
    some (s!"Instruction {Quoted.quote name} uses wires " ++
      Listing.bracketed (wires.map Value.describe) ++ " as both target and control.")
  | .badCount found =>
    some s!"num_qudits must be a non-negative integer, found {found.describe}."
  | .notAnEntry position found =>
    some s!"Trace entry {position} is not an Instruction: {found.describe}"
  | .notAnInstruction found => some s!"Expected an Instruction, found {found.describe}"
  | .wireBeyondCount position instruction wire count =>
    some (s!"Instruction {position} ({instruction.text}) uses wire " ++
      s!"{(instruction.written wire).shown}, but the trace has {count.shown} qudit(s).")
  | .negativeWidth width => some s!"Canvas width must be non-negative, found {width.shown}"
  | .wireOffCanvas wire count =>
    some s!"Wire {wire.shown} is out of range for a canvas with {count.shown} wire(s)."
  | .cellOffCanvas row col height width =>
    some s!"Cell ({row.shown}, {col.shown}) is outside the {height}x{width.shown} canvas."
  | .alreadyPlaced operator col =>
    some s!"{operator.describe} has already been placed at column {col.shown}."
  | .notPlaced operator => some s!"{operator.describe} has not been placed on the canvas."
  | .badBudget found =>
    some s!"max_columns must be a positive integer, found {found.describe}"
  | .overlappingMembers layer first second =>
    some (s!"Layer {layer.shown} holds overlapping operators {first.describe}" ++
      s!" and {second.describe}.")
  | .repeatedMember member => some s!"Operator {member.shown} is a member of more than one layer."
  | .wrongLayerWidth layer width found =>
    some (s!"Layer {layer.shown} has width {width.shown}, " ++
      s!"want {Listing.bracketed (found.map toString)}.")
  | .missingMembers members =>
    some s!"Operators {Listing.braced (members.map toString)} have no layer."
  | .unfinishedPage page => some s!"Page {page} does not end with a newline."
  | .wrongRowCount page found want => some s!"Page {page} has {found} rows; want {want}."
  | .unmarkedRow row page =>
    some s!"Row {Quoted.quote row} of page {page} lacks a continuation marker."
  | .wideRow row page width budget =>
    some (s!"Row {Quoted.quote row} of page {page} is {width} columns wide; " ++
      s!"max is {budget.shown}.")
  | .wrongCanvasHeight height wires => some s!"Canvas height {height} for {wires} qudits."
  | .wrongCanvasWidth => some "Canvas width is not the sum of the layer widths."
  | .unstableDrawing => some "Drawing the same trace twice gave different results."
  | .wrongMarkCount => some "Number of continued rows does not match the number of pages."
  | .noSuchPosition => none
  | .wrongType => none
  | .badValue => none
  | .emptyExtremum => none
  | .tooLarge => none
  | .noRoom => none

end Fault

end WireDiagram
