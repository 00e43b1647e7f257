import Mathlib.Data.List.Forall2
import WireDiagram.Proofs.Commutation
import WireDiagram.Proofs.Connection
import WireDiagram.Proofs.Mirror

/-!
# The order in which wires are listed

An instruction lists its targets and its controls in some order, and this order does not show: the
text of a trace stays the same if the lists of any of its instructions are rearranged
(`Trace.draw_eq_of_relists`).

Targets are sorted before anything is drawn. Controls are not, and each of them is drawn in its
turn, so that the line of one runs over or under the dot of another. The strokes of a cell therefore
do come in another order, and `SameInk` is too much to ask. What holds is that in every cell the
strokes of controls commute, whatever is in the cell (`Stroke.IsLead.after_comm`,
`Box.after_comm_attachStrokes`), and then the result does not depend on their order
(`LeavesSame.of_perm`).
-/

namespace WireDiagram

/-! ## Strokes that leave the same -/

/-- Whether two lists of strokes leave the same in every cell, whatever was there before. -/
def LeavesSame (xs ys : List Stroke) : Prop :=
  ∀ row col (x : Cell), x.inked (strokesAt row col xs) = x.inked (strokesAt row col ys)

namespace LeavesSame

variable {xs ys xs' ys' : List Stroke}

theorem refl (xs : List Stroke) : LeavesSame xs xs := fun _ _ _ ↦ rfl

theorem of_sameInk (h : SameInk xs ys) : LeavesSame xs ys :=
  fun row col x ↦ congrArg x.inked (h row col)

theorem append (h : LeavesSame xs ys) (h' : LeavesSame xs' ys') :
    LeavesSame (xs ++ xs') (ys ++ ys') := by
  intro row col x
  rw [strokesAt_append, strokesAt_append, Cell.inked_append, Cell.inked_append, h row col x,
    h' row col]

/-- **Strokes that commute may be made in any order.** Only those on one cell have to. -/
theorem of_perm (h : xs.Perm ys)
    (hcomm : ∀ s ∈ xs, ∀ t ∈ xs, s.row = t.row → s.col = t.col →
      ∀ x, t.after (s.after x) = s.after (t.after x)) : LeavesSame xs ys := by
  intro row col x
  refine (h.filter _).foldl_eq' (fun s hs t ht x ↦ ?_) x
  obtain ⟨hs, hrow, hcol⟩ := mem_strokesAt_iff.mp hs
  obtain ⟨ht, hrow', hcol'⟩ := mem_strokesAt_iff.mp ht
  exact hcomm s hs t ht (hrow.trans hrow'.symm) (hcol.trans hcol'.symm) x

end LeavesSame

/-! ## Strokes that commute -/

/-- Two leads commute on any cell: a dot wins over everything, and two lines are one. -/
theorem Stroke.IsLead.after_comm {s t : Stroke} (hs : s.IsLead) (ht : t.IsLead) (x : Cell) :
    t.after (s.after x) = s.after (t.after x) := by
  rcases hs with ⟨row, col, rfl⟩ | ⟨row, col, rfl⟩
  · rcases ht with ⟨row', col', rfl⟩ | ⟨row', col', rfl⟩ <;> rfl
  · rcases ht with ⟨row', col', rfl⟩ | ⟨row', col', rfl⟩ <;> rfl

/-- **The controls of a box commute.** In one cell either both of them lead to the box, or both end
on the same edge of it, with the same mark. -/
theorem Box.after_comm_attachStrokes {b : Box} (htall : b.top < b.bottom) {col row row' : Int}
    (hrow : row < b.top ∨ b.bottom < row) (hrow' : row' < b.top ∨ b.bottom < row') {s t : Stroke}
    (hs : s ∈ b.attachStrokes col row) (ht : t ∈ b.attachStrokes col row') (hat : s.row = t.row)
    (x : Cell) : t.after (s.after x) = s.after (t.after x) := by
  obtain ⟨-, -, hkind⟩ := mem_attachStrokes hrow hs
  obtain ⟨-, -, hkind'⟩ := mem_attachStrokes hrow' ht
  rcases hkind with ⟨hlead, hrows⟩ | ⟨-, hend⟩
  · rcases hkind' with ⟨hlead', -⟩ | ⟨-, hend'⟩
    · exact hlead.after_comm hlead' x
    · omega
  · obtain ⟨side, hside⟩ : ∃ side, s.row = b.edge side := by
      rcases hend with ⟨-, hedge⟩ | ⟨-, hedge⟩
      · exact ⟨.upper, hedge⟩
      · exact ⟨.lower, hedge⟩
    rw [eq_of_mem_attachStrokes htall hrow hs hside,
      eq_of_mem_attachStrokes htall hrow' ht (hat.symm.trans hside)]

/-! ## Instructions -/

/-- Whether an instruction is another one with its targets, and its controls, listed in some order.
The way that wires are written makes no difference. -/
structure Instruction.Relists (i i' : Instruction) : Prop where
  /-- The gate is the same. -/
  name_eq : i'.name = i.name
  /-- The parameters are the same. -/
  params_eq : i'.params = i.params
  /-- The targets are the same, in any order. -/
  targets_perm : i'.targets.Perm i.targets
  /-- The controls are the same, in any order. -/
  controls_perm : i'.controls.Perm i.controls

namespace Instruction

namespace Relists

variable {i i' : Instruction} (h : i.Relists i')

include h

theorem sortedTargets_eq : i'.sortedTargets = i.sortedTargets := by
  have hperm : i'.sortedTargets.Perm i.sortedTargets :=
    (List.mergeSort_perm _ _).trans (h.targets_perm.trans (List.mergeSort_perm _ _).symm)
  exact hperm.eq_of_pairwise (fun _ _ _ _ ↦ Nat.le_antisymm) i'.pairwise_sortedTargets
    i.pairwise_sortedTargets

theorem wires_perm : i'.wires.Perm i.wires :=
  h.targets_perm.append h.controls_perm

theorem minWire_eq : i'.minWire = i.minWire :=
  (min?_getD_congr (fun _ ↦ h.wires_perm.mem_iff) i.wires_ne_nil).1

theorem maxWire_eq : i'.maxWire = i.maxWire :=
  (min?_getD_congr (fun _ ↦ h.wires_perm.mem_iff) i.wires_ne_nil).2

theorem firstTarget_eq : i'.firstTarget = i.firstTarget :=
  (min?_getD_congr (fun _ ↦ h.targets_perm.mem_iff) i.targets_ne_nil).1

theorem lastTarget_eq : i'.lastTarget = i.lastTarget :=
  (min?_getD_congr (fun _ ↦ h.targets_perm.mem_iff) i.targets_ne_nil).2

theorem span_eq : i'.span = i.span := by
  rw [span, span, h.minWire_eq, h.maxWire_eq]

theorem wires_lt {count : Nat} (hlt : ∀ w ∈ i.wires, w < count) : ∀ w ∈ i'.wires, w < count :=
  fun w hw ↦ hlt w (h.wires_perm.mem_iff.mp hw)

theorem hasInnerControl_eq : i'.hasInnerControl = i.hasInnerControl := by
  rw [hasInnerControl, hasInnerControl, h.controls_perm.any_eq]
  simp only [h.targets_perm.any_eq]

theorem shape_eq : i'.shape = i.shape := by
  rw [shape, shape, h.hasInnerControl_eq, isSwap, isSwap, label, label, h.name_eq, h.params_eq,
    h.targets_perm.length_eq]

theorem controlCount_eq : i'.operator.controlCount = i.operator.controlCount := by
  simp only [operator, h.controls_perm.length_eq]

theorem width_eq : i'.operator.width = i.operator.width := by
  rw [Operator.width, Operator.width, shape_operator, shape_operator, h.shape_eq,
    h.controlCount_eq]

theorem item_eq : i'.operator.item = i.operator.item := by
  rw [Operator.item, Operator.item, span?_operator, span?_operator, h.span_eq, h.width_eq]

theorem boxAround_eq (left : Int) (low high : Nat) :
    i'.boxAround left low high = i.boxAround left low high := by
  rw [boxAround, boxAround, h.width_eq]

theorem targets_operator_eq : i'.operator.targets = i.operator.targets := by
  rw [targets_operator, targets_operator, h.sortedTargets_eq]

/-! ### Strokes -/

/-- Controls inside a box are on rows of their own. -/
theorem leavesSame_plainBoxStrokes (left : Int) (label : String) :
    LeavesSame (i.plainBoxStrokes left label) (i'.plainBoxStrokes left label) := by
  simp only [plainBoxStrokes, h.minWire_eq, h.maxWire_eq, h.boxAround_eq, h.controlCount_eq,
    h.targets_operator_eq]
  refine .append (.refl _) (.append (.append (.refl _) (.of_sameInk ?_)) (.refl _))
  rw [controls_operator, controls_operator, Box.controlMarks, Box.controlMarks]
  refine SameInk.flatMap_perm (h.controls_perm.symm.map _) ?_
  refine List.pairwise_map.mpr (i.controls_nodup.imp fun {v w} hne s hs t ht heq ↦ hne ?_)
  simp only [List.mem_cons, List.not_mem_nil, or_false] at hs ht
  have hrow : s.row = wireRow v := by rcases hs with rfl | rfl | rfl <;> rfl
  have hrow' : t.row = wireRow w := by rcases ht with rfl | rfl | rfl <;> rfl
  rw [hrow, hrow'] at heq
  simp only [wireRow] at heq
  omega

/-- Controls outside of a box share a column, and there they commute. -/
theorem leavesSame_controlledBoxStrokes (hinner : i.hasInnerControl = false) (left : Int)
    (label : String) :
    LeavesSame (i.controlledBoxStrokes left label) (i'.controlledBoxStrokes left label) := by
  have hin := i.isIn_targets left
  simp only [controlledBoxStrokes, h.firstTarget_eq, h.lastTarget_eq, h.boxAround_eq,
    h.controlCount_eq, h.targets_operator_eq, h.width_eq]
  refine .append (.refl _) (.append (.append (.refl _) (.of_perm ?_ ?_)) (.refl _))
  · exact h.controls_perm.symm.flatMap_right _
  have houter : ∀ w ∈ i.controls,
      wireRow w < (i.boxAround left i.firstTarget i.lastTarget).top ∨
        (i.boxAround left i.firstTarget i.lastTarget).bottom < wireRow w := by
    intro w hw
    have := outer_of_mem_controls hinner hw
    simp only [boxAround, wireRow]
    omega
  intro s hs t ht hat _ x
  obtain ⟨v, hv, hs⟩ := List.mem_flatMap.mp hs
  obtain ⟨w, hw, ht⟩ := List.mem_flatMap.mp ht
  exact Box.after_comm_attachStrokes hin.top_lt_bottom (houter v hv) (houter w hw) hs ht hat x

/-- All strokes of the controls of a swap are leads. -/
theorem leavesSame_swapStrokesOf (hinner : i.hasInnerControl = false) {first last : Nat}
    (heq : i.sortedTargets = [first, last]) (hlt : first < last) (left : Int) :
    LeavesSame (i.swapStrokesOf left first last) (i'.swapStrokesOf left first last) := by
  obtain ⟨hfirst, hlast⟩ := ends_of_sortedTargets heq hlt
  refine .append (.refl _) (.of_perm (h.controls_perm.symm.flatMap_right _) ?_)
  have hlead : ∀ w ∈ i.controls, ∀ s ∈ controlStrokes (left + 1) (wireRow w) (wireRow first)
      (wireRow last), s.IsLead := by
    intro w hw s hs
    have houter := outer_of_mem_controls hinner hw
    refine (mem_controlStrokes ?_ hs).1
    simp only [wireRow]
    omega
  intro s hs t ht _ _ x
  obtain ⟨v, hv, hs⟩ := List.mem_flatMap.mp hs
  obtain ⟨w, hw, ht⟩ := List.mem_flatMap.mp ht
  exact (hlead v hv s hs).after_comm (hlead w hw t ht) x

/-- **An instruction draws the same picture**, in whichever order its wires are listed. -/
theorem leavesSame_strokes {count : Nat} (hlt : ∀ w ∈ i.wires, w < count) (left : Int) :
    LeavesSame ((i.operator.placedAt left).strokes count)
      ((i'.operator.placedAt left).strokes count) := by
  have hlt' := h.wires_lt hlt
  cases hshape : i.shape with
  | plainBox label =>
    rw [strokes_plainBox hlt hshape, strokes_plainBox hlt' (h.shape_eq.trans hshape)]
    exact h.leavesSame_plainBoxStrokes left label
  | controlledBox label =>
    rw [strokes_controlledBox hlt hshape, strokes_controlledBox hlt' (h.shape_eq.trans hshape)]
    exact h.leavesSame_controlledBoxStrokes (hasInnerControl_of_controlledBox hshape) left label
  | swap =>
    obtain ⟨first, last, heq, hends⟩ := exists_targets_of_isSwap (isSwap_of_shape hshape)
    rw [strokes_swap hlt hshape heq,
      strokes_swap hlt' (h.shape_eq.trans hshape) (h.sortedTargets_eq.trans heq)]
    exact h.leavesSame_swapStrokesOf (hasInnerControl_of_swap hshape) heq hends left

end Relists

end Instruction

/-! ## Traces -/

/-- Whether a trace is another one of which some instructions list their wires in another order. -/
structure Trace.Relists (t t' : Trace) : Prop where
  /-- The wires are the same. -/
  wireCount_eq : t'.wireCount = t.wireCount
  /-- The instructions are the same but for the order of their wires. -/
  instructions : List.Forall₂ Instruction.Relists t.instructions t'.instructions

theorem map_item_of_relists {is is' : List Instruction}
    (h : List.Forall₂ Instruction.Relists is is') :
    (is'.map Instruction.operator).map Operator.item =
      (is.map Instruction.operator).map Operator.item := by
  induction h with
  | nil => rfl
  | cons hi _ ih =>
    simp only [List.map_cons, hi.item_eq, ih]

theorem LeavesSame.placed {count : Nat} (all : List Slot) {is is' : List Instruction}
    (h : List.Forall₂ Instruction.Relists is is') (hlt : ∀ i ∈ is, ∀ w ∈ i.wires, w < count)
    (slots : List Slot) :
    LeavesSame
      ((List.zipWith (Slot.place all) slots (is.map Instruction.operator)).flatMap fun op ↦
        op.strokes count)
      ((List.zipWith (Slot.place all) slots (is'.map Instruction.operator)).flatMap fun op ↦
        op.strokes count) := by
  induction h generalizing slots with
  | nil => exact .refl _
  | cons hi his ih =>
    obtain ⟨hfirst, hrest⟩ := List.forall_mem_cons.mp hlt
    cases slots with
    | nil => exact .refl _
    | cons s slots =>
      exact (hi.leavesSame_strokes hfirst (Slot.column all s)).append (ih hrest slots)

namespace Trace

variable {t t' : Trace}

namespace Relists

/-- Operators go where they went, since packing sees their spans and widths only. -/
theorem slots_eq (h : t.Relists t') : t'.slots = t.slots := by
  rw [slots, slots, operators, operators, map_item_of_relists h.instructions]

theorem canvas_eq (h : t.Relists t') {c c' : Canvas} (hdraws : t.Draws c) (hdraws' : t'.Draws c') :
    c = c' := by
  have hsame := LeavesSame.placed t.slots h.instructions t.wires_lt t.slots
  rw [Draws, width, placed, operators, h.wireCount_eq, h.slots_eq] at hdraws'
  rw [Draws, width, placed, operators] at hdraws
  refine Canvas.ext_cell? ?_ ?_ fun row col ↦ ?_
  · rw [hdraws.wires_eq, hdraws'.wires_eq]
  · rw [hdraws.width_eq, hdraws'.width_eq]
  · rw [hdraws.cell?_eq, hdraws'.cell?_eq, funext (hsame row col)]

end Relists

/-- **The order in which wires are listed does not show.** -/
theorem draw_eq_of_relists (h : t.Relists t') (budget : Value) :
    t.draw budget = t'.draw budget := by
  by_cases hne : t.instructions = []
  · have hne' : t'.instructions = [] := List.forall₂_nil_left_iff.mp (hne ▸ h.instructions)
    rw [draw_of_eq_nil hne, draw_of_eq_nil hne']
  · have hne' : t'.instructions ≠ [] := fun hnil ↦
      hne (List.forall₂_nil_right_iff.mp (hnil ▸ h.instructions))
    refine draw_congr hne hne' h.wireCount_eq ?_ (fun _ _ ↦ h.canvas_eq) budget
    rw [h.slots_eq]

end Trace

/-- One gate of each shape, with controls that lie above each other, listed downwards and then in
some other order. -/
theorem Trace.draw_eq_of_relists_three_shapes :
    Trace.draw ⟨5, [.gate "x" [2] [0, 1, 4] (by decide), .gate "u" [0, 4] [2, 3] (by decide),
        .gate "swap" [2, 3] [0, 1] (by decide)], by decide⟩ (.int 80) =
      Trace.draw ⟨5, [.gate "x" [2] [4, 0, 1] (by decide), .gate "u" [4, 0] [3, 2] (by decide),
        .gate "swap" [3, 2] [1, 0] (by decide)], by decide⟩ (.int 80) := by
  refine draw_eq_of_relists ?_ _
  refine ⟨rfl, .cons ?_ (.cons ?_ (.cons ?_ .nil))⟩
  · exact ⟨rfl, rfl, .refl _, by decide⟩
  · exact ⟨rfl, rfl, by decide, by decide⟩
  · exact ⟨rfl, rfl, by decide, by decide⟩

end WireDiagram
