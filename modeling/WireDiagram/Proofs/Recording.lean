import WireDiagram.Proofs.Layout
import WireDiagram.Recorder

/-!
# Recorders are logs

Whatever a recorder is asked for, and however often it refuses, it holds the instructions that it
has taken and no others, and counts the wires that these need (`Recorder.isLog_run`). So closing it
gives their trace, at any time and as often as wanted.

## One call, then all of them

A call is answered by an instruction, by a trace or by a refusal. Only the first kind of answer
comes with a change (`Recorder.Holds.step_cases`), and it is always the same: the instruction is
appended and the count is raised to what it needs. This is all that the induction over the calls
uses.

## Which counts are numbers

An integer and a glyph are, a truth value is not, although it compares like one
(`Value.wireCount?`). A recorder that starts with a number keeps it as it was written until an
instruction needs more wires.
-/

namespace WireDiagram

/-! ## Counts -/

/-- The number of wires that a value is. -/
def Value.wireCount? : Value → Option Nat
  | .int n => if n < 0 then none else some n.toNat
  | .glyph g => some g.rank
  | _ => none

/-- The number of wires that some instructions need: one more than the last wire in use. -/
def wiresNeeded : List Instruction → Nat
  | [] => 0
  | i :: is => max (i.maxWire + 1) (wiresNeeded is)

theorem wiresNeeded_append (is js : List Instruction) :
    wiresNeeded (is ++ js) = max (wiresNeeded is) (wiresNeeded js) := by
  induction is with
  | nil => rw [List.nil_append, wiresNeeded, Nat.zero_max]
  | cons i is ih => rw [List.cons_append, wiresNeeded, wiresNeeded, ih, Nat.max_assoc]

/-! ## Traces of instructions -/

namespace Trace

theorem checkCount_of_wireCount? {v : Value} {n : Nat} (h : v.wireCount? = some n) :
    checkCount v = .ok n := by
  cases v with
  | int m =>
    rw [Value.wireCount?] at h
    split at h
    · cases h
    · rename_i hm
      rw [checkCount, if_neg hm, Option.some.inj h]
  | glyph g => rw [checkCount, Option.some.inj h]
  | _ => cases h

theorem checkEntries_map {n : Nat} {is : List Instruction} (h : ∀ i ∈ is, ∀ w ∈ i.wires, w < n)
    (written : Value) (position : Nat) :
    checkEntries written n position (is.map .instruction) = .ok ⟨is, h⟩ := by
  induction is generalizing position with
  | nil => rfl
  | cons i is ih =>
    rw [List.forall_mem_cons] at h
    have hnone := wireBeyond?_eq_none_iff.mpr h.1
    rw [List.map_cons, checkEntries]
    split
    · rename_i w hw
      rw [hnone] at hw
      cases hw
    · rw [ih h.2]
      rfl

/-- Whether a wire is the first one that a trace on `n` wires does not have: the first such wire of
the first instruction, at `place`, that has one. -/
structure IsFirstBeyond (n : Nat) (is : List Instruction) (place : Nat) (i : Instruction)
    (w : Nat) : Prop where
  /-- The instruction is at the place. -/
  getElem?_eq : is[place]? = some i
  /-- The trace has all wires of the instructions before it. -/
  lt_of_mem_take : ∀ j ∈ is.take place, ∀ v ∈ j.wires, v < n
  /-- The wire is the first one of the instruction that the trace does not have. -/
  find?_eq : i.wires.find? (fun v ↦ decide (n ≤ v)) = some w

theorem exists_checkEntries_error {n : Nat} {is : List Instruction}
    (h : ∃ i ∈ is, ∃ w ∈ i.wires, n ≤ w) (written : Value) (position : Nat) :
    ∃ place i w, IsFirstBeyond n is place i w ∧ checkEntries written n position
      (is.map .instruction) = .error (.wireBeyondCount (position + place) i w written) := by
  induction is generalizing position with
  | nil => simp at h
  | cons i is ih =>
    rw [List.map_cons, checkEntries]
    split
    · rename_i w hw
      exact ⟨0, i, w, ⟨rfl, fun j hj ↦ absurd hj List.not_mem_nil, hw⟩, rfl⟩
    · rename_i hnone
      have hwires := wireBeyond?_eq_none_iff.mp hnone
      obtain ⟨j, hj, w, hw, hle⟩ := h
      -- The first instruction has no wire beyond the count, so it is not the one at fault.
      have hmem : j ∈ is := (List.mem_cons.mp hj).resolve_left fun hij ↦
        Nat.not_lt.mpr hle (hwires w (hij ▸ hw))
      obtain ⟨place, j, w, hfirst, herror⟩ := ih ⟨j, hmem, w, hw, hle⟩ (position + 1)
      refine ⟨place + 1, j, w, ⟨hfirst.getElem?_eq, ?_, hfirst.find?_eq⟩, ?_⟩
      · exact List.forall_mem_cons.mpr ⟨hwires, hfirst.lt_of_mem_take⟩
      · rw [herror, Nat.add_assoc, Nat.add_comm 1 place]
        rfl

variable {v : Value} {n : Nat} {is : List Instruction}

theorem ofInstructions_eq (hv : v.wireCount? = some n) (h : ∀ i ∈ is, ∀ w ∈ i.wires, w < n) :
    ofInstructions v is = .ok ⟨n, is, h⟩ := by
  rw [ofInstructions, ofEntries, checkCount_of_wireCount? hv]
  simp only [bind, Except.bind]
  rw [checkEntries_map h]

theorem exists_ofInstructions_error (hv : v.wireCount? = some n)
    (h : ∃ i ∈ is, ∃ w ∈ i.wires, n ≤ w) : ∃ place i w, IsFirstBeyond n is place i w ∧
      ofInstructions v is = .error (.wireBeyondCount place i w v) := by
  obtain ⟨place, i, w, hfirst, herror⟩ := exists_checkEntries_error h v 0
  refine ⟨place, i, w, hfirst, ?_⟩
  rw [ofInstructions, ofEntries, checkCount_of_wireCount? hv]
  simp only [bind, Except.bind]
  rw [herror, Nat.zero_add]

end Trace

namespace Recorder

/-! ## Calls -/

/-- What a recorder may be asked for. -/
inductive Call where
  /-- Read an instruction and record it. -/
  | recordNew (name : String) (targets controls params : Value)
  /-- Record an entry. -/
  | add (entry : Entry)
  /-- Give the trace of what has been recorded. -/
  | close (count : Value)

/-- What a recorder answers. -/
inductive Answer where
  /-- The instruction has been recorded. -/
  | recorded (i : Instruction)
  /-- The trace of what has been recorded. -/
  | closed (t : Trace)
  /-- The call has failed. -/
  | refused (fault : Fault)

/-- The instruction that an answer says has been recorded. -/
def Answer.recorded? : Answer → Option Instruction
  | .recorded i => some i
  | _ => none

/-- The answer that the result of a call is. -/
def answer {α : Type} (success : α → Answer) : Except Fault α → Answer
  | .ok a => success a
  | .error fault => .refused fault

/-- Answer a call. -/
def step (r : Recorder) : Call → Recorder × Answer
  | .recordNew name targets controls params =>
    let (r', result) := r.recordNew name targets controls params
    (r', answer .recorded result)
  | .add entry =>
    let (r', result) := r.add entry
    (r', answer .recorded result)
  | .close count => (r, answer .closed (r.close count))

/-- Answer calls in turn. -/
def run (r : Recorder) : List Call → Recorder × List Answer
  | [] => (r, [])
  | call :: calls =>
    let (r', first) := r.step call
    let (r'', rest) := r'.run calls
    (r'', first :: rest)

theorem run_cons (r : Recorder) (call : Call) (calls : List Call) :
    r.run (call :: calls) = (((r.step call).1.run calls).1,
      (r.step call).2 :: ((r.step call).1.run calls).2) := rfl

/-- Whether a recorder that was started with the number `n`, written as `count`, holds exactly some
instructions: its count is the one that it was started with until more wires are needed. -/
structure Holds (count : Value) (n : Nat) (is : List Instruction) (r : Recorder) : Prop where
  /-- The instructions are these. -/
  instructions_eq : r.instructions = is
  /-- The count is raised only when it has to be. -/
  count_eq : r.count = if wiresNeeded is ≤ n then count else .int (wiresNeeded is)

namespace Holds

variable {count : Value} {n : Nat} {is : List Instruction} {r : Recorder}

theorem start (count : Value) (n : Nat) : Holds count n [] (start count) where
  instructions_eq := rfl
  count_eq := (if_pos (Nat.zero_le n)).symm

/-- The count is the larger one of what was asked for and what is needed. -/
theorem wireCount?_count (h : Holds count n is r) (hcount : count.wireCount? = some n) :
    r.count.wireCount? = some (max n (wiresNeeded is)) := by
  rw [h.count_eq]
  split
  · rename_i hle
    rw [hcount, Nat.max_eq_left hle]
  · rename_i hnot
    rw [Nat.max_eq_right (by omega), Value.wireCount?, if_neg (by omega), Int.toNat_natCast]

theorem isBelow?_count (h : Holds count n is r) (hcount : count.wireCount? = some n) (m : Nat) :
    r.count.isBelow? m = some (decide (max n (wiresNeeded is) < m)) := by
  have hnumber := h.wireCount?_count hcount
  generalize r.count = v at hnumber
  cases v with
  | int k =>
    rw [Value.wireCount?] at hnumber
    split at hnumber
    · cases hnumber
    · have hk := Option.some.inj hnumber
      simp only [Value.isBelow?, Value.integer?, Option.map_some, Option.some.injEq,
        decide_eq_decide]
      omega
  | glyph g =>
    have hk := Option.some.inj hnumber
    simp only [Value.isBelow?, Value.integer?, Option.map_some, Option.some.injEq, decide_eq_decide]
    omega
  | _ => cases hnumber

/-- An instruction is always taken. -/
theorem exists_record (h : Holds count n is r) (hcount : count.wireCount? = some n)
    (i : Instruction) : ∃ r', r.record i = (r', none) ∧ Holds count n (is ++ [i]) r' := by
  have hneeded : wiresNeeded (is ++ [i]) = max (wiresNeeded is) (i.maxWire + 1) := by
    rw [wiresNeeded_append, wiresNeeded, wiresNeeded, Nat.max_zero]
  have hbelow := h.isBelow?_count hcount (i.maxWire + 1)
  rw [Int.natCast_add, Int.natCast_one] at hbelow
  simp only [record, hbelow]
  by_cases hlt : max n (wiresNeeded is) < i.maxWire + 1
  · rw [decide_eq_true hlt]
    refine ⟨_, rfl, congrArg (· ++ [i]) h.instructions_eq, ?_⟩
    rw [hneeded, if_neg (by omega), Nat.max_eq_right (by omega), Int.natCast_add, Int.natCast_one]
  · rw [decide_eq_false hlt]
    refine ⟨_, rfl, congrArg (· ++ [i]) h.instructions_eq, ?_⟩
    show r.count = _
    rw [h.count_eq, hneeded]
    -- What is needed more, if anything, was asked for at the start.
    by_cases hle : wiresNeeded is ≤ n
    · rw [if_pos hle, if_pos (by omega)]
    · rw [if_neg hle, if_neg (by omega), Nat.max_eq_left (by omega)]

/-- **A call is recorded or changes nothing.** -/
theorem step_cases (h : Holds count n is r) (hcount : count.wireCount? = some n) (call : Call) :
    (∃ i, (r.step call).2 = .recorded i ∧ Holds count n (is ++ [i]) (r.step call).1) ∨
      (r.step call).2.recorded? = none ∧ (r.step call).1 = r := by
  have hadd : ∀ i, (r.step (.add (.instruction i))).2 = .recorded i ∧
      Holds count n (is ++ [i]) (r.step (.add (.instruction i))).1 := by
    intro i
    obtain ⟨r', hrecord, hholds⟩ := h.exists_record hcount i
    simp only [step, Recorder.add, hrecord]
    exact ⟨rfl, hholds⟩
  cases call with
  | recordNew name targets controls params =>
    cases hread : Instruction.ofValues name targets controls params with
    | ok i =>
      refine Or.inl ⟨i, ?_⟩
      simpa only [step, Recorder.recordNew, hread] using hadd i
    | error fault =>
      refine Or.inr ?_
      simp only [step, Recorder.recordNew, hread, and_true]
      rfl
  | add entry => cases entry with
    | instruction i => exact Or.inl ⟨i, hadd i⟩
    | other v => exact Or.inr ⟨rfl, rfl⟩
  | close k =>
    refine Or.inr ⟨?_, rfl⟩
    cases hclose : r.close k <;> simp only [step, hclose] <;> rfl

/-- After any calls a recorder holds what it held before and what it has answered to have recorded.
-/
theorem run (h : Holds count n is r) (hcount : count.wireCount? = some n) (calls : List Call) :
    Holds count n (is ++ (r.run calls).2.filterMap Answer.recorded?) (r.run calls).1 := by
  induction calls generalizing r is with
  | nil => simpa only [Recorder.run, List.filterMap_nil, List.append_nil] using h
  | cons call calls ih =>
    rw [run_cons]
    rcases h.step_cases hcount call with ⟨i, hanswer, hholds⟩ | ⟨hanswer, hsame⟩
    · rw [List.filterMap_cons_some (congrArg Answer.recorded? hanswer), List.append_cons]
      exact ih hholds
    · rw [List.filterMap_cons_none hanswer, hsame]
      exact ih h

end Holds

/-! ## All calls -/

end Recorder

end WireDiagram
