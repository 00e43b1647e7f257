import WireDiagram.Proofs.Recording

/-!
# What instructions and traces are made of

Whatever lists of values are given for the wires of an instruction, there is an instruction if and
only if they fit together (`Value.FitTogether`), and whatever instructions are given, there is a
trace if and only if it has all their wires. Everything else is refused, and the kind of a refusal
tells why (`Trace.admits`).

## Which refusal comes first

Several things may be wrong at once. A list is searched for values that are no wires before its
members are compared, and the targets are done with before the controls are looked at. So it is the
first value that is no wire which decides, and of all such values only a negative integer is refused
as a wire out of range (`Value.AreRefusedBelowZero`).
-/

namespace WireDiagram

namespace Value

/-! ## Wires among values -/

/-- Whether a value is a natural number: an integer, no truth value, and not negative. -/
def isNatural : Value → Bool
  | .int n => decide (0 ≤ n)
  | .glyph _ => true
  | _ => false

/-- The number that a natural number is. -/
def number (v : Value) : Nat :=
  (v.integer?.getD 0).toNat

/-- Whether values can be the wires of one role. -/
structure AreWires (vs : List Value) : Prop where
  /-- Each of them is a natural number. -/
  isNatural : ∀ v ∈ vs, v.isNatural = true
  /-- No two of them are equal. -/
  differ : vs.Pairwise fun v w ↦ v.same w = false

/-- Whether lists of values can be the targets and the controls of an instruction. -/
structure FitTogether (targets controls : List Value) : Prop where
  /-- Something is acted on. -/
  targets_ne_nil : targets ≠ []
  /-- The targets are wires. -/
  targets_areWires : AreWires targets
  /-- The controls are wires. -/
  controls_areWires : AreWires controls
  /-- No target is a control. -/
  disjoint : ∀ v ∈ targets, ∀ w ∈ controls, v.same w = false

/-- Whether the first value that is no natural number is a negative integer. -/
def StopsBelowZero (vs : List Value) : Prop :=
  ∃ n : Int, n < 0 ∧ vs.find? (fun v ↦ !v.isNatural) = some (.int n)

/-- Whether lists of targets and controls are refused for a negative integer: the controls are
looked at only if nothing is wrong with the targets. -/
def AreRefusedBelowZero (targets controls : List Value) : Prop :=
  StopsBelowZero targets ∨ (targets ≠ [] ∧ AreWires targets) ∧ StopsBelowZero controls

/-- The fault of a value that is no natural number. -/
def offence (role : Role) : Value → Fault
  | .int n => .negativeWire role n
  | v => .notAWire role v

variable {v w : Value} {vs ws : List Value}

theorem integer?_of_isNatural (h : v.isNatural = true) : v.integer? = some (v.number : Int) := by
  cases v with
  | int n => exact congrArg some (Int.toNat_of_nonneg (of_decide_eq_true h)).symm
  | glyph g => rfl
  | _ => cases h

theorem same_iff_of_integer? {m n : Int} (hv : v.integer? = some m) (hw : w.integer? = some n) :
    v.same w = true ↔ n = m := by
  cases v <;> simp only [integer?, reduceCtorEq] at hv <;>
    cases w <;> simp only [integer?, reduceCtorEq] at hw <;>
      simp_all [same, integer?]

/-- Natural numbers are equal if they are the same number, whatever they are written as. -/
theorem same_iff_of_isNatural (hv : v.isNatural = true) (hw : w.isNatural = true) :
    v.same w = true ↔ v.number = w.number := by
  rw [same_iff_of_integer? (integer?_of_isNatural hv) (integer?_of_isNatural hw), Int.ofNat_inj,
    eq_comm]

theorem nodup_map_number_iff (h : ∀ v ∈ vs, v.isNatural = true) :
    (vs.map number).Nodup ↔ vs.Pairwise fun v w ↦ v.same w = false := by
  rw [List.Nodup, List.pairwise_map]
  refine List.Pairwise.iff_of_mem fun hv hw ↦ ?_
  rw [Ne, ← same_iff_of_isNatural (h _ hv) (h _ hw), Bool.not_eq_true]

theorem disjoint_map_number_iff (hvs : ∀ v ∈ vs, v.isNatural = true)
    (hws : ∀ w ∈ ws, w.isNatural = true) :
    (∀ n ∈ vs.map number, n ∉ ws.map number) ↔ ∀ v ∈ vs, ∀ w ∈ ws, v.same w = false := by
  rw [List.forall_mem_map]
  refine forall₂_congr fun v hv ↦ ?_
  rw [List.mem_map, not_exists]
  refine forall_congr' fun w ↦ ?_
  rw [not_and]
  refine forall_congr' fun hw ↦ ?_
  rw [← Bool.not_eq_true, same_iff_of_isNatural (hvs v hv) (hws w hw), eq_comm]

theorem AreWires.nodup (h : AreWires vs) : (vs.map number).Nodup :=
  (nodup_map_number_iff h.isNatural).mpr h.differ

theorem AreWires.not_stopsBelowZero (h : AreWires vs) : ¬StopsBelowZero vs := by
  rintro ⟨n, hn, hfind⟩
  have hnatural := h.isNatural _ (List.mem_of_find?_eq_some hfind)
  exact absurd (of_decide_eq_true hnatural) (Int.not_le.mpr hn)

/-- The instruction of wires that fit together. -/
def FitTogether.instruction (h : FitTogether vs ws) (name : String) (params : List Float) :
    Instruction where
  name := name
  targets := vs.map number
  controls := ws.map number
  params := params
  glyphs := Value.glyphs (vs ++ ws)
  targets_ne_nil he := h.targets_ne_nil (List.map_eq_nil_iff.mp he)
  targets_nodup := h.targets_areWires.nodup
  controls_nodup := h.controls_areWires.nodup
  disjoint := (disjoint_map_number_iff h.targets_areWires.isNatural
    h.controls_areWires.isNatural).mpr h.disjoint

end Value

/-! ## Refusals -/

/-- Whether a check refuses: as a wire out of range if something is so, and else as ill-formed. -/
def Refuses {α : Type} (check : Except Fault α) (outOfRange : Prop) : Prop :=
  ∃ fault, check = .error fault ∧ (outOfRange → fault.kind = .wireOutOfRange) ∧
    (¬outOfRange → fault.kind = .illFormed)

namespace Refuses

variable {α β : Type} {check : Except Fault α} {p q : Prop}

theorem of_iff (h : Refuses check p) (hpq : p ↔ q) : Refuses check q := by
  rwa [← hpq]

/-- Nothing comes after a refusal. -/
theorem bind (h : Refuses check p) (next : α → Except Fault β) : Refuses (check >>= next) p := by
  obtain ⟨fault, rfl, hkind⟩ := h
  exact ⟨fault, rfl, hkind⟩

theorem illFormed {fault : Fault} (h : check = .error fault) (hkind : fault.kind = .illFormed)
    (hp : ¬p) : Refuses check p :=
  ⟨fault, h, fun hp' ↦ absurd hp' hp, fun _ ↦ hkind⟩

end Refuses

/-! ## Instructions -/

namespace Instruction

open Value

variable {v : Value} {vs targets controls : List Value} {role : Role}

theorem checkWire_of_isNatural (h : v.isNatural = true) : checkWire role v = .ok v.number := by
  cases v with
  | int n => exact if_neg (Int.not_lt.mpr (of_decide_eq_true h))
  | glyph g => rfl
  | _ => cases h

theorem checkWire_of_isNatural_eq_false (h : v.isNatural = false) :
    checkWire role v = .error (v.offence role) := by
  cases v with
  | int n => exact if_pos (Int.not_le.mp (of_decide_eq_false h))
  | glyph g => cases h
  | _ => rfl

theorem mapM_checkWire (h : ∀ v ∈ vs, v.isNatural = true) :
    vs.mapM (checkWire role) = .ok (vs.map number) := by
  induction vs with
  | nil => rfl
  | cons v vs ih =>
    rw [List.mapM_cons, checkWire_of_isNatural (h v List.mem_cons_self),
      ih fun w hw ↦ h w (List.mem_cons_of_mem v hw)]
    rfl

/-- The first value that is no natural number is the one at fault. -/
theorem mapM_checkWire_of_find? (h : vs.find? (fun v ↦ !v.isNatural) = some v) :
    vs.mapM (checkWire role) = .error (v.offence role) := by
  obtain ⟨hv, before, after, rfl, hbefore⟩ := List.find?_eq_some_iff_append.mp h
  have hnaturals : ∀ w ∈ before, w.isNatural = true := fun w hw ↦ by simpa using hbefore w hw
  rw [List.mapM_append, mapM_checkWire hnaturals, List.mapM_cons,
    checkWire_of_isNatural_eq_false (by simpa using hv)]
  rfl

theorem checkWires_eq (h : AreWires vs) : checkWires role vs = .ok ⟨vs.map number, h.nodup⟩ := by
  rw [checkWires, mapM_checkWire h.isNatural]
  exact dif_pos h.nodup

/-- **Wires of one role are refused** for a value that is no wire, or else for a repetition. -/
theorem refuses_checkWires (h : ¬AreWires vs) :
    Refuses (checkWires role vs) (StopsBelowZero vs) := by
  cases hfind : vs.find? fun v ↦ !v.isNatural with
  | none =>
    have hnaturals : ∀ v ∈ vs, v.isNatural = true := by simpa using hfind
    have hnodup : ¬(vs.map number).Nodup := fun hnodup ↦
      h ⟨hnaturals, (nodup_map_number_iff hnaturals).mp hnodup⟩
    refine ⟨.repeatedWire role vs, ?_, ?_, fun _ ↦ rfl⟩
    · rw [checkWires, mapM_checkWire hnaturals]
      exact dif_neg hnodup
    · rintro ⟨n, -, hn⟩
      rw [hfind] at hn
      cases hn
  | some v =>
    refine ⟨v.offence role, ?_, ?_, fun hstops ↦ ?_⟩
    · rw [checkWires, mapM_checkWire_of_find? hfind]
      rfl
    · rintro ⟨n, -, hn⟩
      obtain rfl : v = .int n := Option.some.inj (hfind.symm.trans hn)
      rfl
    · cases v with
      | int n =>
        have hn : (!isNatural (.int n)) = true := (List.find?_eq_some_iff_append.mp hfind).1
        exact absurd ⟨n, by simpa [isNatural] using hn, hfind⟩ hstops
      | _ => rfl

variable {name : String} {params : List Float}

/-- Wires that fit together make an instruction. -/
theorem make?_eq (h : FitTogether targets controls) :
    make? name targets controls params = .ok (h.instruction name params) := by
  have hempty : ¬targets.isEmpty = true := fun he ↦ h.targets_ne_nil (List.isEmpty_iff.mp he)
  rw [make?, if_neg hempty, checkWires_eq h.targets_areWires, checkWires_eq h.controls_areWires]
  exact (dif_pos (h.instruction name params).disjoint).trans
    (dif_pos (h.instruction name params).targets_ne_nil)

/-- **An instruction is refused** unless its wires fit together. -/
theorem refuses_make? (h : ¬FitTogether targets controls) :
    Refuses (make? name targets controls params) (AreRefusedBelowZero targets controls) := by
  by_cases hnil : targets = []
  · subst hnil
    refine .illFormed rfl rfl ?_
    rintro (⟨n, -, hn⟩ | ⟨⟨hne, -⟩, -⟩)
    · cases hn
    · exact hne rfl
  have hempty : ¬targets.isEmpty = true := fun he ↦ hnil (List.isEmpty_iff.mp he)
  rw [make?, if_neg hempty]
  by_cases htargets : AreWires targets
  swap
  · refine ((refuses_checkWires htargets).bind _).of_iff ⟨Or.inl, fun hstop ↦ ?_⟩
    exact hstop.resolve_right fun hcontrols ↦ htargets hcontrols.1.2
  have hstop : AreRefusedBelowZero targets controls ↔ StopsBelowZero controls :=
    ⟨fun hstop ↦ (hstop.resolve_left htargets.not_stopsBelowZero).2,
      fun hstop ↦ Or.inr ⟨⟨hnil, htargets⟩, hstop⟩⟩
  rw [checkWires_eq htargets]
  by_cases hcontrols : AreWires controls
  swap
  · exact ((refuses_checkWires hcontrols).bind _).of_iff hstop.symm
  rw [checkWires_eq hcontrols]
  -- The wires are all right by themselves, so it must be that the two roles share some.
  have hshared : ¬∀ w ∈ targets.map number, w ∉ controls.map number := fun hdisjoint ↦
    h ⟨hnil, htargets, hcontrols,
      (disjoint_map_number_iff htargets.isNatural hcontrols.isNatural).mp hdisjoint⟩
  exact .illFormed (dif_neg hshared) rfl fun hstop' ↦ hcontrols.not_stopsBelowZero (hstop.mp hstop')

theorem ofValues_list {ps : List Float} {params : Value} (hparams : params.toParams = .ok ps) :
    ofValues name (.list targets) (.list controls) params = make? name targets controls ps := by
  rw [ofValues, hparams]
  rfl

/-- What is known of an instruction that is to be made of some values, whether it is refused or not.
-/
structure Admits (name : String) (targets controls : List Value) (params : List Float)
    (result : Except Fault Instruction) : Prop where
  /-- There is an instruction if and only if the wires fit together. -/
  exists_iff : (∃ i, result = .ok i) ↔ FitTogether targets controls
  /-- The instruction is made of what was given. -/
  of_ok : ∀ i, result = .ok i → i.name = name ∧ i.params = params ∧
    i.wires.map i.written = targets ++ controls ∧ i.targets.length = targets.length
  /-- A refusal is about a wire out of range if and only if it is for a negative integer. -/
  of_error : ∀ fault, result = .error fault →
    (AreRefusedBelowZero targets controls → fault.kind = .wireOutOfRange) ∧
      (¬AreRefusedBelowZero targets controls → fault.kind = .illFormed)

theorem admits_make? (name : String) (targets controls : List Value) (params : List Float) :
    Admits name targets controls params (make? name targets controls params) := by
  by_cases h : FitTogether targets controls
  · have heq : make? name targets controls params = .ok (h.instruction name params) := make?_eq h
    refine ⟨iff_of_true ⟨_, heq⟩ h, fun i hi ↦ ?_, fun fault hfault ↦ ?_⟩
    · have hwritten := map_written_of_make? hi
      obtain rfl : h.instruction name params = i := Except.ok.inj (heq.symm.trans hi)
      exact ⟨rfl, rfl, hwritten, List.length_map number⟩
    · rw [heq] at hfault
      cases hfault
  · obtain ⟨fault, hfault, hkind⟩ :
      Refuses (make? name targets controls params) (AreRefusedBelowZero targets controls) :=
      refuses_make? h
    rw [hfault]
    refine ⟨iff_of_false ?_ h, nofun, ?_⟩
    · rintro ⟨i, hi⟩
      cases hi
    · rintro fault' hfault'
      obtain rfl : fault = fault' := Except.error.inj hfault'
      exact hkind

end Instruction

/-! ## Traces -/

namespace Trace

/-- What is known of a trace that is to be made of some instructions on `n` wires, a number written
as `count`. -/
structure Admits (count : Value) (n : Nat) (is : List Instruction) (result : Except Fault Trace) :
    Prop where
  /-- There is a trace if and only if it has all wires of the instructions. -/
  exists_iff : (∃ t, result = .ok t) ↔ ∀ i ∈ is, ∀ w ∈ i.wires, w < n
  /-- The trace is made of the instructions. -/
  of_ok : ∀ t, result = .ok t → t.wireCount = n ∧ t.instructions = is
  /-- A refusal is about a wire out of range, and names the first one. -/
  of_error : ∀ fault, result = .error fault → fault.kind = .wireOutOfRange ∧
    ∃ place i w, IsFirstBeyond n is place i w ∧ fault = .wireBeyondCount place i w count

theorem admits_ofInstructions {count : Value} {n : Nat} (hcount : count.wireCount? = some n)
    (is : List Instruction) : Admits count n is (ofInstructions count is) := by
  by_cases hwires : ∀ i ∈ is, ∀ w ∈ i.wires, w < n
  · rw [ofInstructions_eq hcount hwires]
    refine ⟨iff_of_true ⟨_, rfl⟩ hwires, ?_, nofun⟩
    intro t ht
    obtain rfl := Except.ok.inj ht
    exact ⟨rfl, rfl⟩
  · have hbeyond : ∃ i ∈ is, ∃ w ∈ i.wires, n ≤ w := by
      push Not at hwires
      exact hwires
    obtain ⟨place, i, w, hfirst, herror⟩ := exists_ofInstructions_error hcount hbeyond
    rw [herror]
    refine ⟨iff_of_false ?_ hwires, nofun, ?_⟩
    · rintro ⟨t, ht⟩
      cases ht
    · intro fault hfault
      obtain rfl := Except.error.inj hfault
      exact ⟨rfl, place, i, w, hfirst, rfl⟩

/-- **What is admitted**: lists of values as wires of an instruction if they fit together, and
instructions in a trace that has their wires. Whatever else is given is refused for the first thing
that is wrong. -/
theorem admits (name : String) (targets controls : List Value) {params : Value}
    {ps : List Float} (hparams : params.toParams = .ok ps) {count : Value} {n : Nat}
    (hcount : count.wireCount? = some n) (is : List Instruction) :
    Instruction.Admits name targets controls ps
        (Instruction.ofValues name (.list targets) (.list controls) params) ∧
      Admits count n is (ofInstructions count is) := by
  rw [Instruction.ofValues_list hparams]
  exact ⟨Instruction.admits_make? name targets controls ps, admits_ofInstructions hcount is⟩

/-- Controls with a truth value before a negative integer, and a trace with too few wires for its
second instruction. -/
theorem admits_truth_value_before_negative :
    Instruction.Admits "x" [.int 2, .int 0] [.bool true, .int (-1)] [0.5]
        (Instruction.ofValues "x" (.list [.int 2, .int 0]) (.list [.bool true, .int (-1)])
          (.float 0.5)) ∧
      Admits (.int 2) 2 [.single "h" 1, .single "x" 2]
        (ofInstructions (.int 2) [.single "h" 1, .single "x" 2]) :=
  admits "x" [.int 2, .int 0] [.bool true, .int (-1)] rfl rfl [.single "h" 1, .single "x" 2]

end Trace

end WireDiagram
