import WireDiagram.Operator.Selection
import WireDiagram.Proofs.Centring
import WireDiagram.Proofs.Outline

/-!
# Every instruction can be drawn

The operator of an instruction, placed in any column of a diagram that has its wires, draws without
a fault and keeps to its area (`Instruction.exists_holds`).

## Where the selection of shapes matters

A box around the targets alone, and a swap, are chosen only if no control lies between the targets
(`Instruction.outer_of_mem_controls`). This is what puts every control strictly above or below the
targets, and its line on one side of them.
-/

namespace WireDiagram

/-! ## First and last wires -/

theorem min?_getD_mem {ws : List Nat} (h : ws ≠ []) :
    ws.min?.getD 0 ∈ ws ∧ ∀ w ∈ ws, ws.min?.getD 0 ≤ w := by
  cases hmin : ws.min? with
  | none => exact absurd (List.min?_eq_none_iff.mp hmin) h
  | some low => exact List.min?_eq_some_iff.mp hmin

theorem max?_getD_mem {ws : List Nat} (h : ws ≠ []) :
    ws.max?.getD 0 ∈ ws ∧ ∀ w ∈ ws, w ≤ ws.max?.getD 0 := by
  cases hmax : ws.max? with
  | none => exact absurd (List.max?_eq_none_iff.mp hmax) h
  | some high => exact List.max?_eq_some_iff.mp hmax

theorem min?_getD_eq {ws : List Nat} {low : Nat} (hmem : low ∈ ws) (hle : ∀ w ∈ ws, low ≤ w) :
    ws.min?.getD 0 = low := by
  rw [List.min?_eq_some_iff.mpr ⟨hmem, hle⟩, Option.getD_some]

theorem max?_getD_eq {ws : List Nat} {high : Nat} (hmem : high ∈ ws) (hle : ∀ w ∈ ws, w ≤ high) :
    ws.max?.getD 0 = high := by
  rw [List.max?_eq_some_iff.mpr ⟨hmem, hle⟩, Option.getD_some]

/-- The first and the last of some wires do not depend on how the wires are listed. -/
theorem min?_getD_congr {ws ws' : List Nat} (h : ∀ w, w ∈ ws ↔ w ∈ ws') (hne : ws' ≠ []) :
    ws.min?.getD 0 = ws'.min?.getD 0 ∧ ws.max?.getD 0 = ws'.max?.getD 0 := by
  obtain ⟨hmin, hge⟩ := min?_getD_mem hne
  obtain ⟨hmax, hle⟩ := max?_getD_mem hne
  exact ⟨min?_getD_eq ((h _).mpr hmin) fun w hw ↦ hge w ((h w).mp hw),
    max?_getD_eq ((h _).mpr hmax) fun w hw ↦ hle w ((h w).mp hw)⟩

/-- The first of some wires, as an integer. -/
theorem min?_map_ofNat {ws : List Nat} {low : Nat} (hmem : low ∈ ws) (hle : ∀ w ∈ ws, low ≤ w) :
    (ws.map Int.ofNat).min? = some (low : Int) := by
  refine List.min?_eq_some_iff.mpr ⟨List.mem_map_of_mem hmem, fun z hz ↦ ?_⟩
  obtain ⟨w, hw, rfl⟩ := List.mem_map.mp hz
  exact Int.ofNat_le.mpr (hle w hw)

/-- The last of some wires, as an integer. -/
theorem max?_map_ofNat {ws : List Nat} {high : Nat} (hmem : high ∈ ws)
    (hle : ∀ w ∈ ws, w ≤ high) : (ws.map Int.ofNat).max? = some (high : Int) := by
  refine List.max?_eq_some_iff.mpr ⟨List.mem_map_of_mem hmem, fun z hz ↦ ?_⟩
  obtain ⟨w, hw, rfl⟩ := List.mem_map.mp hz
  exact Int.ofNat_le.mpr (hle w hw)

namespace Instruction

variable (i : Instruction)

theorem minWire_mem : i.minWire ∈ i.wires ∧ ∀ w ∈ i.wires, i.minWire ≤ w :=
  min?_getD_mem i.wires_ne_nil

theorem maxWire_mem : i.maxWire ∈ i.wires ∧ ∀ w ∈ i.wires, w ≤ i.maxWire :=
  max?_getD_mem i.wires_ne_nil

/-- The first target. -/
def firstTarget : Nat := i.targets.min?.getD 0

/-- The last target. -/
def lastTarget : Nat := i.targets.max?.getD 0

theorem firstTarget_mem : i.firstTarget ∈ i.targets ∧ ∀ w ∈ i.targets, i.firstTarget ≤ w :=
  min?_getD_mem i.targets_ne_nil

theorem lastTarget_mem : i.lastTarget ∈ i.targets ∧ ∀ w ∈ i.targets, w ≤ i.lastTarget :=
  max?_getD_mem i.targets_ne_nil

variable {i}

theorem mem_wires_of_mem_targets {w : Nat} (h : w ∈ i.targets) : w ∈ i.wires :=
  List.mem_append_left _ h

theorem mem_wires_of_mem_controls {w : Nat} (h : w ∈ i.controls) : w ∈ i.wires :=
  List.mem_append_right _ h

theorem mem_sortedTargets_iff {w : Nat} : w ∈ i.sortedTargets ↔ w ∈ i.targets :=
  List.mem_mergeSort

theorem pairwise_sortedTargets (i : Instruction) : i.sortedTargets.Pairwise (· ≤ ·) := by
  have hsorted : i.sortedTargets.Pairwise fun v w ↦ decide (v ≤ w) = true :=
    List.pairwise_mergeSort (by simp; omega) (by simp; omega) i.targets
  exact hsorted.imp of_decide_eq_true

/-- **Controls of a box around the targets are outside of it.** -/
theorem outer_of_mem_controls (h : i.hasInnerControl = false) {c : Nat} (hc : c ∈ i.controls) :
    c < i.firstTarget ∨ i.lastTarget < c := by
  rw [hasInnerControl, List.any_eq_false] at h
  have hne : ∀ t ∈ i.targets, t ≠ c := fun t ht htc ↦ i.disjoint t ht (htc ▸ hc)
  have hfirst := hne _ i.firstTarget_mem.1
  have hlast := hne _ i.lastTarget_mem.1
  rcases Nat.lt_or_ge c i.firstTarget with hlt | hge
  · exact Or.inl hlt
  rcases Nat.lt_or_ge i.lastTarget c with hlt | hle
  · exact Or.inr hlt
  refine absurd (Bool.and_eq_true_iff.mpr ⟨?_, ?_⟩) (h c hc)
  · exact List.any_eq_true.mpr ⟨_, i.firstTarget_mem.1, decide_eq_true (by omega)⟩
  · exact List.any_eq_true.mpr ⟨_, i.lastTarget_mem.1, decide_eq_true (by omega)⟩

/-- A box around the targets, and a swap, are chosen only without controls between the targets. -/
theorem hasInnerControl_eq_false (h : ∀ label, i.shape ≠ .plainBox label) :
    i.hasInnerControl = false :=
  Bool.eq_false_iff.mpr fun hinner ↦ h i.label (if_pos hinner)

theorem hasInnerControl_of_controlledBox {label : String} (h : i.shape = .controlledBox label) :
    i.hasInnerControl = false :=
  hasInnerControl_eq_false fun _ ↦ h ▸ Shape.noConfusion

theorem hasInnerControl_of_swap (h : i.shape = .swap) : i.hasInnerControl = false :=
  hasInnerControl_eq_false fun _ ↦ h ▸ Shape.noConfusion

theorem isSwap_of_shape (h : i.shape = .swap) : i.isSwap = true := by
  rw [shape] at h
  split at h
  · contradiction
  split at h
  · assumption
  · contradiction

/-! ## The wires of an operator -/

theorem mem_wires_operator_iff {w : Nat} : w ∈ i.sortedTargets ++ i.controls ↔ w ∈ i.wires := by
  rw [wires, List.mem_append, List.mem_append, mem_sortedTargets_iff]

theorem length_sortedTargets : i.sortedTargets.length = i.targets.length :=
  List.length_mergeSort i.targets

theorem min?_operator : i.operator.wires.min? = some (i.minWire : Int) :=
  min?_map_ofNat (mem_wires_operator_iff.mpr i.minWire_mem.1) fun w hw ↦
    i.minWire_mem.2 w (mem_wires_operator_iff.mp hw)

theorem max?_operator : i.operator.wires.max? = some (i.maxWire : Int) :=
  max?_map_ofNat (mem_wires_operator_iff.mpr i.maxWire_mem.1) fun w hw ↦
    i.maxWire_mem.2 w (mem_wires_operator_iff.mp hw)

/-- An operator covers the wires from the first to the last one of its instruction. -/
theorem span?_operator : i.operator.span? = some i.span := by
  rw [Operator.span?, min?_operator, max?_operator]
  rfl

theorem targets_operator : i.operator.targets = i.sortedTargets.map Int.ofNat := by
  have hlength : i.targets.length ≤ (i.sortedTargets ++ i.controls).length := by
    rw [List.length_append, length_sortedTargets]
    omega
  show Position.slice ((i.sortedTargets ++ i.controls).map Int.ofNat) ((0 : Nat) : Int)
    (i.targets.length : Int) = _
  rw [Position.slice_map, Position.slice_natCast (Nat.zero_le _) hlength, List.drop_zero,
    ← length_sortedTargets, List.take_left]

theorem controls_operator : i.operator.controls = i.controls.map Int.ofNat := by
  have hlength : (i.sortedTargets ++ i.controls).length = i.targets.length + i.controls.length := by
    rw [List.length_append, length_sortedTargets]
  show Position.slice ((i.sortedTargets ++ i.controls).map Int.ofNat) (i.targets.length : Int)
    ((i.targets.length + i.controls.length : Nat) : Int) = _
  rw [Position.slice_map, Position.slice_natCast (by omega) (by omega), ← hlength, List.take_length,
    ← length_sortedTargets, List.drop_left]

theorem min?_targets_operator : i.operator.targets.min? = some (i.firstTarget : Int) := by
  rw [targets_operator]
  exact min?_map_ofNat (mem_sortedTargets_iff.mpr i.firstTarget_mem.1) fun w hw ↦
    i.firstTarget_mem.2 w (mem_sortedTargets_iff.mp hw)

theorem max?_targets_operator : i.operator.targets.max? = some (i.lastTarget : Int) := by
  rw [targets_operator]
  exact max?_map_ofNat (mem_sortedTargets_iff.mpr i.lastTarget_mem.1) fun w hw ↦
    i.lastTarget_mem.2 w (mem_sortedTargets_iff.mp hw)

theorem mem_span {w : Nat} (h : w ∈ i.wires) : i.span.low ≤ (w : Int) ∧ (w : Int) ≤ i.span.high :=
  ⟨Int.ofNat_le.mpr (i.minWire_mem.2 w h), Int.ofNat_le.mpr (i.maxWire_mem.2 w h)⟩

/-- The wires of an instruction that a diagram has, as a span. -/
theorem within_span {count : Nat} (h : ∀ w ∈ i.wires, w < count) : i.span.Within count where
  low_nonneg := Int.natCast_nonneg _
  low_le_high := Int.ofNat_le.mpr (i.minWire_mem.2 _ i.maxWire_mem.1)
  high_lt := Int.ofNat_lt.mpr (h _ i.maxWire_mem.1)

/-! ## The area of an operator -/

@[simp] theorem shape_operator : i.operator.shape = i.shape := rfl

/-- Shapes show the label of their instruction, if they show any. -/
theorem eq_label_of_mem {label : String} (h : label ∈ i.shape.label?) : label = i.label := by
  rw [shape] at h
  split at h
  · exact (Option.mem_some.mp h).symm
  split at h
  · contradiction
  · exact (Option.mem_some.mp h).symm

/-- Labels are padded to two columns at least. -/
theorem two_le_length_label {label : String} (h : label ∈ i.shape.label?) : 2 ≤ label.length := by
  rw [i.eq_label_of_mem h, Instruction.label, Label.text, Label.length_pad]
  omega

/-- Three columns are the least that an operator takes. -/
theorem three_le_width : 3 ≤ i.operator.width := by
  rw [Operator.width, shape_operator]
  cases hshape : i.shape with
  | plainBox label =>
    have := i.two_le_length_label (by rw [hshape]; rfl)
    simp only
    split <;> omega
  | controlledBox label =>
    have := i.two_le_length_label (by rw [hshape]; rfl)
    simp only
    omega
  | swap => exact Int.le_refl 3

/-- The area of the operator of an instruction, placed in column `left`. -/
def area (i : Instruction) (left : Int) : Area :=
  ⟨i.span, left, left + i.operator.width - 1⟩

@[simp] theorem shape_placedAt (left : Int) : (i.operator.placedAt left).shape = i.shape := rfl

@[simp] theorem wires_placedAt (left : Int) :
    (i.operator.placedAt left).wires = i.operator.wires := rfl

@[simp] theorem targets_placedAt (left : Int) :
    (i.operator.placedAt left).targets = i.operator.targets := rfl

theorem columns_placedAt (left : Int) : (i.operator.placedAt left).columns =
    .ok (left, (left + (left + i.operator.width - 1)) / 2, left + i.operator.width - 1) := rfl

theorem area?_placedAt (left : Int) :
    (i.operator.placedAt left).area? = some (i.area left) := by
  have hspan : (i.operator.placedAt left).span? = some i.span := span?_operator
  rw [Operator.area?, hspan, columns_placedAt]
  rfl

end Instruction

/-! ## Look-ups that succeed -/

theorem checkedRow_of_lt {count wire : Nat} (h : wire < count) :
    checkedRow count wire = .ok (wireRow wire) :=
  if_pos ⟨Int.natCast_nonneg wire, Int.ofNat_lt.mpr h⟩

theorem controlSketch_of_lt {count : Nat} (strokes : Int → List Stroke) {wires : List Nat}
    (h : ∀ w ∈ wires, w < count) :
    controlSketch count strokes (wires.map Int.ofNat) =
      .ofStrokes (wires.flatMap fun w : Nat ↦ strokes (wireRow w)) := by
  induction wires with
  | nil => rfl
  | cons w wires ih =>
    have hrow : checkedRow count (Int.ofNat w) = .ok (wireRow w) :=
      checkedRow_of_lt (h w List.mem_cons_self)
    rw [List.map_cons, controlSketch, hrow, List.flatMap_cons]
    show _ ++ controlSketch count strokes (wires.map Int.ofNat) = _
    rw [ih fun w' hw' ↦ h w' (List.mem_cons_of_mem w hw')]
    rfl

namespace Instruction

variable {i : Instruction} {count : Nat}

/-! ## Boxes around wires -/

/-- The box from wire `low` to wire `high`, as wide as the operator and placed in column `left`. -/
def boxAround (i : Instruction) (left : Int) (low high : Nat) : Box :=
  ⟨wireRow low - 1, wireRow high + 1, left, left + i.operator.width - 1⟩

theorem box_placedAt {wires : List Int} {low high : Nat} (hmin : wires.min? = some (low : Int))
    (hmax : wires.max? = some (high : Int)) (hlow : low < count) (hhigh : high < count)
    (left : Int) :
    (i.operator.placedAt left).box count wires = .ok (i.boxAround left low high) := by
  rw [Operator.box, Operator.boxRows, hmin, hmax]
  simp only [checkedRow_of_lt hlow, checkedRow_of_lt hhigh]
  rfl

/-- A box around wires of an instruction has room in the area of its operator. -/
theorem isIn_area {low high : Nat} (hlow : low ∈ i.wires) (hhigh : high ∈ i.wires)
    (hle : low ≤ high) (left : Int) : (i.boxAround left low high).IsIn (i.area left) where
  top_eq := by
    refine ⟨low, ?_, Int.ofNat_le.mpr (i.minWire_mem.2 low hlow)⟩
    simp only [boxAround, wireRow]
    omega
  bottom_eq := by
    refine ⟨high, ?_, Int.ofNat_le.mpr (i.maxWire_mem.2 high hhigh)⟩
    simp only [boxAround, wireRow]
    omega
  top_lt_bottom := by
    simp only [boxAround, wireRow]
    omega
  left_eq := rfl
  right_eq := rfl
  left_lt_right := by
    have := i.three_le_width
    simp only [boxAround]
    omega

/-- The wires from `low` to `high` pass through a box around them. -/
theorem passes_of_le {wires : List Nat} {low high : Nat} (hlow : ∀ w ∈ wires, low ≤ w)
    (hhigh : ∀ w ∈ wires, w ≤ high) (left : Int) : ∀ w ∈ wires.map Int.ofNat,
      (i.boxAround left low high).top < wireRow w ∧
        wireRow w < (i.boxAround left low high).bottom := by
  intro z hz
  obtain ⟨w, hw, rfl⟩ := List.mem_map.mp hz
  have := hlow w hw
  have := hhigh w hw
  simp only [boxAround, wireRow, Int.ofNat_eq_natCast]
  omega

/-- A label fits into a box that is two columns wider. -/
theorem inscribes_label {left col : Int} {low high : Nat} {label : String} (hle : low ≤ high)
    (hcol : left ≤ col) (hfit : col + label.length ≤ left + i.operator.width - 1) :
    (i.boxAround left low high).Inscribes ((i.boxAround left low high).labelStrokes col label) := by
  refine Box.inscribes_labelStrokes ?_ hcol hfit
  simp only [boxAround, wireRow]
  omega

/-! ## The three shapes -/

/-- The strokes of a box around all wires, with the controls inside. -/
def plainBoxStrokes (i : Instruction) (left : Int) (label : String) : List Stroke :=
  let b := i.boxAround left i.minWire i.maxWire
  let marked := decide (0 < i.operator.controlCount)
  b.frame ++ (b.targetMarks marked i.operator.targets ++ b.controlMarks i.operator.controls ++
    b.labelStrokes (b.left + 1 + if marked = true then 1 else 0) label)

/-- The strokes of a box around the targets, with the controls outside. -/
def controlledBoxStrokes (i : Instruction) (left : Int) (label : String) : List Stroke :=
  let b := i.boxAround left i.firstTarget i.lastTarget
  let mid := (left + (left + i.operator.width - 1)) / 2
  b.frame ++ (b.targetMarks (decide (0 < i.operator.controlCount)) i.operator.targets ++
    (i.controls.flatMap fun w : Nat ↦ b.attachStrokes mid (wireRow w)) ++
      b.labelStrokes (b.left + 1) label)

/-- The strokes of a swap of two wires, with the controls outside. -/
def swapStrokesOf (i : Instruction) (left : Int) (first last : Nat) : List Stroke :=
  swapStrokes (left + 1) (wireRow first) (wireRow last) ++
    i.controls.flatMap fun w : Nat ↦
      controlStrokes (left + 1) (wireRow w) (wireRow first) (wireRow last)

theorem sketch_plainBox {label : String} (h : ∀ w ∈ i.wires, w < count)
    (hshape : i.shape = .plainBox label) (left : Int) :
    (i.operator.placedAt left).sketch count = .ofStrokes (i.plainBoxStrokes left label) := by
  have hbox := i.box_placedAt min?_operator max?_operator (h _ i.minWire_mem.1)
    (h _ i.maxWire_mem.1) left
  rw [Operator.sketch, shape_placedAt, hshape]
  simp only [Operator.plainBoxSketch, wires_placedAt, hbox, plainBoxStrokes, ← List.append_assoc]
  rfl

theorem holds_plainBox {label : String} (hshape : i.shape = .plainBox label) (left : Int) :
    (i.area left).Holds (i.plainBoxStrokes left label) := by
  have hle : i.minWire ≤ i.maxWire := i.minWire_mem.2 _ i.maxWire_mem.1
  have hin := i.isIn_area i.minWire_mem.1 i.maxWire_mem.1 hle left
  have hwidth : i.operator.width =
      label.length + 2 + (if 0 < i.operator.controlCount then 1 else 0) := by
    rw [Operator.width, shape_operator, hshape]
  refine Area.holds_frame hin (Box.Inscribes.trims hin (.append (.append ?_ ?_) ?_))
  · rw [targets_operator]
    apply Box.inscribes_targetMarks hin.left_lt_right
    apply passes_of_le
    · exact fun w hw ↦ i.minWire_mem.2 w (mem_wires_of_mem_targets (mem_sortedTargets_iff.mp hw))
    · exact fun w hw ↦ i.maxWire_mem.2 w (mem_wires_of_mem_targets (mem_sortedTargets_iff.mp hw))
  · rw [controls_operator]
    apply Box.inscribes_controlMarks hin.left_lt_right
    apply passes_of_le
    · exact fun w hw ↦ i.minWire_mem.2 w (mem_wires_of_mem_controls hw)
    · exact fun w hw ↦ i.maxWire_mem.2 w (mem_wires_of_mem_controls hw)
  · -- The label is one column further to the right if the targets are pointed out.
    apply inscribes_label hle
    · simp only [boxAround]
      split <;> omega
    · rw [hwidth]
      simp only [boxAround, decide_eq_true_eq]
      split <;> omega

theorem sketch_controlledBox {label : String} (h : ∀ w ∈ i.wires, w < count)
    (hshape : i.shape = .controlledBox label) (left : Int) :
    (i.operator.placedAt left).sketch count = .ofStrokes (i.controlledBoxStrokes left label) := by
  have hbox := i.box_placedAt min?_targets_operator max?_targets_operator
    (h _ (mem_wires_of_mem_targets i.firstTarget_mem.1))
    (h _ (mem_wires_of_mem_targets i.lastTarget_mem.1)) left
  rw [Operator.sketch, shape_placedAt, hshape]
  simp only [Operator.controlledBoxSketch]
  rw [targets_placedAt, hbox, columns_placedAt]
  show Sketch.ofStrokes (Box.frame _ ++ Box.targetMarks _ _ i.operator.targets) ++
    controlSketch count (Box.attachStrokes _ _) i.operator.controls ++ _ = _
  rw [controls_operator, controlSketch_of_lt _ fun w hw ↦ h w (mem_wires_of_mem_controls hw),
    Sketch.ofStrokes_append_ofStrokes, Sketch.ofStrokes_append_ofStrokes, controlledBoxStrokes]
  simp only [← List.append_assoc]
  rfl

/-- A box around the targets has room in the area of the operator. -/
theorem isIn_targets (left : Int) :
    (i.boxAround left i.firstTarget i.lastTarget).IsIn (i.area left) :=
  i.isIn_area (mem_wires_of_mem_targets i.firstTarget_mem.1)
    (mem_wires_of_mem_targets i.lastTarget_mem.1) (i.firstTarget_mem.2 _ i.lastTarget_mem.1) left

/-- The targets are marked inside of the box around them. -/
theorem inscribes_targets (left : Int) (marked : Bool) :
    (i.boxAround left i.firstTarget i.lastTarget).Inscribes
      ((i.boxAround left i.firstTarget i.lastTarget).targetMarks marked i.operator.targets) := by
  rw [targets_operator]
  refine Box.inscribes_targetMarks (isIn_targets left).left_lt_right marked ?_
  apply passes_of_le
  · exact fun w hw ↦ i.firstTarget_mem.2 w (mem_sortedTargets_iff.mp hw)
  · exact fun w hw ↦ i.lastTarget_mem.2 w (mem_sortedTargets_iff.mp hw)

/-- The label of a box with its controls outside is inside of the box. -/
theorem inscribes_outerLabel {label : String} (hshape : i.shape = .controlledBox label)
    (left : Int) : (i.boxAround left i.firstTarget i.lastTarget).Inscribes
      ((i.boxAround left i.firstTarget i.lastTarget).labelStrokes (left + 1) label) := by
  have hwidth : i.operator.width = label.length + 2 := by
    rw [Operator.width, shape_operator, hshape]
  refine inscribes_label (i.firstTarget_mem.2 _ i.lastTarget_mem.1) ?_ ?_
  · omega
  · rw [hwidth]
    omega

theorem holds_controlledBox {label : String} (hshape : i.shape = .controlledBox label)
    (left : Int) : (i.area left).Holds (i.controlledBoxStrokes left label) := by
  have hinner := hasInnerControl_of_controlledBox hshape
  have hin := i.isIn_targets left
  refine Area.holds_frame hin fun s hs ↦ ?_
  rw [List.mem_append, List.mem_append] at hs
  rcases hs with (hs | hs) | hs
  · exact (inscribes_targets left _).trims hin s hs
  · obtain ⟨w, hw, hs⟩ := List.mem_flatMap.mp hs
    -- No control is between the targets, so the line meets the box from one side.
    have houter := outer_of_mem_controls hinner hw
    refine Box.trims_attachStrokes hin ?_ (mem_span (mem_wires_of_mem_controls hw)) ?_ s hs
    · have := i.three_le_width
      simp only [area]
      omega
    · simp only [boxAround, wireRow]
      omega
  · exact (inscribes_outerLabel hshape left).trims hin s hs

/-- The two targets of a swap. -/
theorem exists_targets_of_isSwap (h : i.isSwap = true) :
    ∃ first last, i.sortedTargets = [first, last] ∧ first < last := by
  have hlength : i.sortedTargets.length = 2 := by
    rw [length_sortedTargets]
    rw [isSwap, Bool.and_eq_true_iff, beq_iff_eq] at h
    exact h.2
  have hnodup : i.sortedTargets.Nodup :=
    (List.mergeSort_perm i.targets _).nodup_iff.mpr i.targets_nodup
  have hsorted := i.pairwise_sortedTargets
  obtain ⟨first, last, heq⟩ : ∃ first last, i.sortedTargets = [first, last] := by
    match i.sortedTargets, hlength with
    | [first, last], _ => exact ⟨first, last, rfl⟩
  rw [heq] at hnodup hsorted
  refine ⟨first, last, heq, ?_⟩
  simp only [List.nodup_cons, List.mem_singleton, List.pairwise_cons, forall_eq] at hnodup hsorted
  omega

theorem ends_of_sortedTargets {first last : Nat} (heq : i.sortedTargets = [first, last])
    (hlt : first < last) : i.firstTarget = first ∧ i.lastTarget = last := by
  have hmem : ∀ w, w ∈ i.targets ↔ w = first ∨ w = last := fun w ↦ by
    rw [← mem_sortedTargets_iff, heq, List.mem_cons, List.mem_singleton]
  have := i.firstTarget_mem.2 first ((hmem first).mpr (Or.inl rfl))
  have := i.lastTarget_mem.2 last ((hmem last).mpr (Or.inr rfl))
  have := (hmem _).mp i.firstTarget_mem.1
  have := (hmem _).mp i.lastTarget_mem.1
  omega

theorem sketch_swap {first last : Nat} (h : ∀ w ∈ i.wires, w < count) (hshape : i.shape = .swap)
    (heq : i.sortedTargets = [first, last]) (left : Int) :
    (i.operator.placedAt left).sketch count = .ofStrokes (i.swapStrokesOf left first last) := by
  have hmem : ∀ w ∈ [first, last], w < count := fun w hw ↦
    h w (mem_wires_of_mem_targets (mem_sortedTargets_iff.mp (heq ▸ hw)))
  have hwires : (i.operator.placedAt left).wires =
      (first : Int) :: (last : Int) :: i.controls.map Int.ofNat := by
    show (i.sortedTargets ++ i.controls).map Int.ofNat = _
    rw [heq]
    rfl
  rw [Operator.sketch, shape_placedAt, hshape]
  simp only [Operator.swapSketch, Operator.wireRowAt, hwires, List.getElem?_cons_zero,
    List.getElem?_cons_succ, checkedRow_of_lt (hmem first (by simp)),
    checkedRow_of_lt (hmem last (by simp))]
  show Sketch.ofStrokes (swapStrokes (left + 1) _ _) ++
    controlSketch count _ i.operator.controls = _
  rw [controls_operator, controlSketch_of_lt _ fun w hw ↦ h w (mem_wires_of_mem_controls hw)]
  rfl

theorem holds_swap {first last : Nat} (hshape : i.shape = .swap)
    (heq : i.sortedTargets = [first, last]) (hlt : first < last) (left : Int) :
    (i.area left).Holds (i.swapStrokesOf left first last) := by
  have hinner := hasInnerControl_of_swap hshape
  have hends := ends_of_sortedTargets heq hlt
  have hspan : ∀ w ∈ [first, last], i.span.low ≤ (w : Int) ∧ (w : Int) ≤ i.span.high := fun w hw ↦
    mem_span (mem_wires_of_mem_targets (mem_sortedTargets_iff.mp (heq ▸ hw)))
  have hwidth : i.operator.width = 3 := by
    rw [Operator.width, shape_operator, hshape]
  have hcol : (i.area left).left ≤ left + 1 ∧ left + 1 ≤ (i.area left).right := by
    simp only [area]
    omega
  have hcontrols : ∀ c ∈ i.controls.map Int.ofNat,
      (i.span.low ≤ c ∧ c ≤ i.span.high) ∧ (c < first ∨ last < c) := by
    intro c hc
    obtain ⟨w, hw, rfl⟩ := List.mem_map.mp hc
    have houter := outer_of_mem_controls hinner hw
    refine ⟨mem_span (mem_wires_of_mem_controls hw), ?_⟩
    simp only [Int.ofNat_eq_natCast]
    omega
  have hholds := Area.holds_swap (a := i.area left) (hspan first (by simp)).1
    (Int.ofNat_lt.mpr hlt) (hspan last (by simp)).2 hcol hcontrols
  rwa [List.flatMap_map] at hholds

/-- **Every instruction can be drawn.** On a canvas with its wires, its operator keeps to its area.
-/
theorem exists_holds (h : ∀ w ∈ i.wires, w < count) (left : Int) :
    ∃ strokes, (i.operator.placedAt left).sketch count = .ofStrokes strokes ∧
      (i.area left).Holds strokes := by
  cases hshape : i.shape with
  | plainBox label => exact ⟨_, sketch_plainBox h hshape left, holds_plainBox hshape left⟩
  | controlledBox label =>
    exact ⟨_, sketch_controlledBox h hshape left, holds_controlledBox hshape left⟩
  | swap =>
    obtain ⟨first, last, heq, hlt⟩ := exists_targets_of_isSwap (isSwap_of_shape hshape)
    exact ⟨_, sketch_swap h hshape heq left, holds_swap hshape heq hlt left⟩

end Instruction

end WireDiagram
