import WireDiagram.Fault

/-!
# Checks that decide

A check passes, with a result, or is refused. It decides a question if the answer says which of the
two it is: it passes with a known result if the answer is yes, and if the answer is no, its fault is
a failed check and nothing else (`Decides`). Steps that decide make up a check that decides
(`Decides.bind`, `Decides.forM_map`), so what a long check decides is read off its steps.
-/

namespace WireDiagram

variable {α β : Type}

/-- Whether a check decides a question, with `a` as its result if the answer is yes. -/
structure Decides (check : Except Fault α) (a : α) (p : Prop) : Prop where
  /-- If the answer is yes, the check passes. -/
  eq_ok : p → check = .ok a
  /-- If the answer is no, the check fails. -/
  exists_fault : ¬p → ∃ fault, check = .error fault ∧ fault.kind = .check

namespace Decides

variable {check : Except Fault α} {a : α} {p q : Prop}

theorem of_iff (h : Decides check a p) (hpq : p ↔ q) : Decides check a q :=
  ⟨fun hq ↦ h.eq_ok (hpq.mpr hq), fun hq ↦ h.exists_fault fun hp ↦ hq (hpq.mp hp)⟩

theorem eq_ok_iff (h : Decides check a p) : check = .ok a ↔ p := by
  refine ⟨fun hok ↦ Classical.byContradiction fun hnot ↦ ?_, h.eq_ok⟩
  obtain ⟨fault, hfault, -⟩ := h.exists_fault hnot
  rw [hok] at hfault
  contradiction

theorem pass (hp : p) : Decides (.ok a) a p :=
  ⟨fun _ ↦ rfl, fun hnot ↦ absurd hp hnot⟩

theorem fail {fault : Fault} (hkind : fault.kind = .check) (hp : ¬p) :
    Decides (.error fault) a p :=
  ⟨fun hyes ↦ absurd hyes hp, fun _ ↦ ⟨fault, rfl, hkind⟩⟩

theorem ite {c : Prop} [Decidable c] {fault : Fault} (hkind : fault.kind = .check) :
    Decides (if c then .ok a else .error fault) a c := by
  split
  · exact pass ‹_›
  · exact fail hkind ‹_›

theorem ite_not {c : Prop} [Decidable c] {fault : Fault} (hkind : fault.kind = .check) :
    Decides (if c then .error fault else .ok a) a (¬c) := by
  split
  · exact fail hkind (not_not_intro ‹_›)
  · exact pass ‹_›

/-- **One check after another** decides both questions; the second one may depend on what the first
one has found out. -/
theorem bind {next : α → Except Fault β} {b : β} (h : Decides check a p)
    (hnext : p → Decides (next a) b q) : Decides (check >>= next) b (p ∧ q) := by
  constructor
  · rintro ⟨hp, hq⟩
    rw [h.eq_ok hp]
    exact (hnext hp).eq_ok hq
  · intro hnot
    by_cases hp : p
    · rw [h.eq_ok hp]
      exact (hnext hp).exists_fault fun hq ↦ hnot ⟨hp, hq⟩
    · obtain ⟨fault, hfault, hkind⟩ := h.exists_fault hp
      rw [hfault]
      exact ⟨fault, rfl, hkind⟩

/-- **A check of every member** of a list. -/
theorem forM_map {f : α → β} {step : β → Except Fault Unit} {q : α → Prop} {l : List α}
    (h : ∀ x ∈ l, Decides (step (f x)) () (q x)) :
    Decides ((l.map f).forM step) () (∀ x ∈ l, q x) := by
  induction l with
  | nil => exact pass fun x hx ↦ absurd hx List.not_mem_nil
  | cons x l ih =>
    have hrest := ih fun y hy ↦ h y (List.mem_cons_of_mem x hy)
    exact ((h x List.mem_cons_self).bind fun _ ↦ hrest).of_iff List.forall_mem_cons.symm

theorem forM {step : β → Except Fault Unit} {q : β → Prop} {l : List β}
    (h : ∀ x ∈ l, Decides (step x) () (q x)) : Decides (l.forM step) () (∀ x ∈ l, q x) := by
  have hmap : Decides ((l.map id).forM step) () (∀ x ∈ l, q x) := forM_map h
  rwa [List.map_id] at hmap

end Decides

end WireDiagram
