import WireDiagram.Value.Conversion

/-!
# Reading instructions

An instruction is read from unchecked values in two rounds. First every field is converted: wires to
a list, parameters to doubles. Only then are the wires checked, targets before controls, so a
parameter that is no number is reported before a wire that is none.

## Order of the checks on one list of wires

Each member is checked in turn, then repetition, so the first member that is no wire decides which
fault is reported.

## Wires written as glyphs

A glyph in a list of wires stands for the wire of its rank and is remembered, so that an instruction
names every wire the way it was written (`map_written_of_make?`). A glyph that is not in a list is
just the number of its rank.
-/

namespace WireDiagram

namespace Value

/-! ## Conversion -/

/-- The wires that a value lists; an integer alone is a list of one wire. -/
def toWires (v : Value) : Except Fault (List Value) :=
  match v.integer? with
  | some n => .ok [.int n]
  | none => v.members

/-- The parameters that a value lists; a number alone is a list of one parameter. -/
def toParams : Value → Except Fault (List Float)
  | .text s => (characters s).mapM readFloat
  | .list items => items.mapM readFloat
  | v => v.toFloat.map ([·])

end Value

namespace Instruction

/-! ## Checks -/

/-- The wire that a value is. -/
def checkWire (role : Role) : Value → Except Fault Nat
  | .int n => if n < 0 then .error (.negativeWire role n) else .ok n.toNat
  | .glyph g => .ok g.rank
  | v => .error (.notAWire role v)

/-- The wires that the members of a list are, none of them twice. -/
def checkWires (role : Role) (values : List Value) :
    Except Fault { wires : List Nat // wires.Nodup } := do
  let wires ← values.mapM (checkWire role)
  if h : wires.Nodup then .ok ⟨wires, h⟩
  else .error (.repeatedWire role values)

/-- The wires that two lists share, ascending. -/
def shared (targets controls : List Nat) : List Nat :=
  (targets.filter controls.contains).mergeSort

/-- The glyphs that shared wires are named by: what two lists share is named the way it is written
in the shorter list, and in the second if both are of one length. -/
def sharedGlyphs (targets controls : List Value) : List Glyph :=
  Value.glyphs (if targets.length < controls.length then targets else controls)

/-- The instruction with the given fields, if its wires fit together. -/
def make? (name : String) (targets controls : List Value) (params : List Float) :
    Except Fault Instruction := do
  if targets.isEmpty then .error (.noTargets name)
  else
    let ⟨ts, targets_nodup⟩ ← checkWires .targets targets
    let ⟨cs, controls_nodup⟩ ← checkWires .controls controls
    if disjoint : ∀ w ∈ ts, w ∉ cs then
      if targets_ne_nil : ts ≠ [] then
        .ok ⟨name, ts, cs, params, Value.glyphs (targets ++ controls), targets_ne_nil,
          targets_nodup, controls_nodup, disjoint⟩
      else .error (.noTargets name)
    else
      let glyphs := sharedGlyphs targets controls
      .error (.sharedWires name ((shared ts cs).map fun (w : Nat) ↦ .ofWire glyphs w))

/-- The instruction that unchecked values describe. -/
def ofValues (name : String) (targets controls params : Value) : Except Fault Instruction := do
  let ts ← targets.toWires
  let cs ← controls.toWires
  -- Every field is converted before any wire is looked at.
  let ps ← params.toParams
  make? name ts cs ps

/-! ## How wires are named -/

theorem isWire_of_checkWire {role : Role} {v : Value} {w : Nat} (h : checkWire role v = .ok w) :
    v.isWire ∧ v.integer? = some (w : Int) := by
  unfold checkWire at h
  split at h
  · split at h
    · cases h
    · cases h
      exact ⟨rfl, by simp only [Value.integer?, Option.some.injEq]; omega⟩
  · cases h
    exact ⟨rfl, rfl⟩
  · cases h

theorem isWire_of_mapM {role : Role} {values : List Value} {wires : List Nat}
    (h : values.mapM (checkWire role) = .ok wires) :
    (∀ v ∈ values, v.isWire) ∧ values.map Value.integer? = (wires.map Int.ofNat).map some := by
  induction values generalizing wires with
  | nil =>
    cases h
    simp
  | cons v values ih =>
    rw [List.mapM_cons] at h
    cases hv : checkWire role v with
    | error fault =>
      rw [hv] at h
      cases h
    | ok w => cases hvs : values.mapM (checkWire role) with
      | error fault =>
        rw [hv, hvs] at h
        cases h
      | ok ws =>
        rw [hv, hvs] at h
        cases h
        have head := isWire_of_checkWire hv
        have tail := ih hvs
        exact ⟨by simpa using ⟨head.1, tail.1⟩, by simp [head.2, tail.2]⟩

theorem isWire_of_checkWires {role : Role} {values : List Value}
    {wires : { wires : List Nat // wires.Nodup }} (h : checkWires role values = .ok wires) :
    (∀ v ∈ values, v.isWire) ∧
      values.map Value.integer? = (wires.1.map Int.ofNat).map some := by
  unfold checkWires at h
  cases hws : values.mapM (checkWire role) with
  | error fault =>
    rw [hws] at h
    cases h
  | ok ws =>
    rw [hws] at h
    simp only [bind, Except.bind] at h
    split at h
    · cases h
      exact isWire_of_mapM hws
    · cases h

/-- **An instruction names its wires the way they were written.** -/
theorem map_written_of_make? {name : String} {targets controls : List Value} {params : List Float}
    {i : Instruction} (h : make? name targets controls params = .ok i) :
    i.wires.map i.written = targets ++ controls := by
  unfold make? at h
  split at h
  · cases h
  · cases hts : checkWires .targets targets with
    | error fault =>
      rw [hts] at h
      cases h
    | ok ts => cases hcs : checkWires .controls controls with
      | error fault =>
        rw [hts, hcs] at h
        cases h
      | ok cs =>
        rw [hts, hcs] at h
        simp only [bind, Except.bind] at h
        split at h
        · split at h
          · have nodup := i.wires_nodup
            cases h
            have ht := isWire_of_checkWires hts
            have hc := isWire_of_checkWires hcs
            have numbers : (targets ++ controls).map Value.integer? =
                ((ts.1 ++ cs.1).map Int.ofNat).map some := by
              simp only [List.map_append, ht.2, hc.2]
            have whole := Value.map_ofWire_glyphs
              (fun v hv ↦ (List.mem_append.1 hv).elim (ht.1 v) (hc.1 v)) numbers
              (List.pairwise_map.2 (nodup.imp fun hne e ↦ hne (Int.ofNat.inj e)))
            rwa [List.map_map] at whole
          · cases h
        · cases h

end Instruction

end WireDiagram
