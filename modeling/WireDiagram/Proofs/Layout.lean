import Mathlib.Data.List.Forall2
import WireDiagram.Page
import WireDiagram.Proofs.Drawability

/-!
# Layouts

The diagram of a trace, without packing, placement and drawing: the slots of its instructions say
where every operator goes (`Trace.slots`, `Trace.placed`), and every cell of the canvas holds what
the strokes of the placed operators leave of it (`Trace.Draws`).

What later results use of the layout is that any two areas are apart (`Trace.pairwise_placed`) and
that every placed operator is settled in its own (`Operator.IsSettled`): it is on the canvas, and it
draws without a fault and within its area.
-/

namespace WireDiagram

/-! ## Areas of slots -/

namespace Slot

/-- The area of a slot among others. -/
def area (slots : List Slot) (s : Slot) : Area :=
  ⟨s.span, column slots s, column slots s + s.width - 1⟩

theorem right_lt_left {slots : List Slot} {s t : Slot} (hs : s ∈ slots) (ht : t ∈ slots)
    (h : s.level < t.level) : (area slots s).right < (area slots t).left := by
  have := column_mem hs
  have := column_mem ht
  have := offset_add_layerWidth_le slots h
  simp only [area]
  omega

theorem level_eq_of_covers {slots : List Slot} {s t : Slot} (hs : s ∈ slots) (ht : t ∈ slots)
    {row col : Int} (h : (area slots s).Covers row col) (h' : (area slots t).Covers row col) :
    s.level = t.level := by
  have hcols := h.2
  have hcols' := h'.2
  rcases Nat.lt_trichotomy s.level t.level with hlt | heq | hgt
  · have := right_lt_left hs ht hlt
    omega
  · exact heq
  · have := right_lt_left ht hs hgt
    omega

/-- Of two slots that are centred in one layer, the narrower one lies among the columns of the
wider. -/
theorem isAmong_of_width_le {slots : List Slot} {s t : Slot} (hlevel : s.level = t.level)
    (hwidth : s.width ≤ t.width) : (area slots s).IsAmong (area slots t) := by
  simp only [Area.IsAmong, area, column, hlevel]
  omega

/-- **A layout keeps areas apart**: those of different layers by their columns, those of one layer
by their wires. -/
theorem pairwise_area (items : List (Span × Int)) :
    (pack [] items).Pairwise fun s t ↦
      (area (pack [] items) s).Apart (area (pack [] items) t) := by
  refine (pairwise_pack List.Pairwise.nil items).imp_of_mem fun {s t} hs ht horder ↦ ?_
  by_cases hmeets : s.span.meets t.span
  · exact Or.inl (Or.inl (right_lt_left hs ht (horder hmeets)))
  -- Spans that do not meet may share a layer, and then both are centred in it.
  rcases Nat.lt_trichotomy s.level t.level with hlt | heq | hgt
  · exact Or.inl (Or.inl (right_lt_left hs ht hlt))
  · refine Or.inr ⟨hmeets, ?_⟩
    rcases Int.le_total s.width t.width with hle | hle
    · exact Or.inl (isAmong_of_width_le heq hle)
    · exact Or.inr (isAmong_of_width_le heq.symm hle)
  · exact Or.inl (Or.inr (right_lt_left ht hs hgt))

end Slot

/-! ## Settled operators -/

/-- The strokes of an operator on `count` wires. -/
def Operator.strokes (op : Operator) (count : Nat) : List Stroke :=
  (op.sketch count).strokes

namespace Instruction

variable {i : Instruction} {count : Nat}

theorem strokes_plainBox {label : String} (h : ∀ w ∈ i.wires, w < count)
    (hshape : i.shape = .plainBox label) (left : Int) :
    (i.operator.placedAt left).strokes count = i.plainBoxStrokes left label := by
  rw [Operator.strokes, sketch_plainBox h hshape]
  rfl

theorem strokes_controlledBox {label : String} (h : ∀ w ∈ i.wires, w < count)
    (hshape : i.shape = .controlledBox label) (left : Int) :
    (i.operator.placedAt left).strokes count = i.controlledBoxStrokes left label := by
  rw [Operator.strokes, sketch_controlledBox h hshape]
  rfl

theorem strokes_swap {first last : Nat} (h : ∀ w ∈ i.wires, w < count) (hshape : i.shape = .swap)
    (heq : i.sortedTargets = [first, last]) (left : Int) :
    (i.operator.placedAt left).strokes count = i.swapStrokesOf left first last := by
  rw [Operator.strokes, sketch_swap h hshape heq]
  rfl

end Instruction

/-- Whether an operator has an area on a canvas and draws there. -/
structure Operator.IsSettled (op : Operator) (count width : Nat) (a : Area) : Prop where
  /-- The area is the one of the operator. -/
  area?_eq : op.area? = some a
  /-- The area is on wires of the canvas. -/
  within : a.span.Within count
  /-- The area starts on the canvas. -/
  left_nonneg : 0 ≤ a.left
  /-- The area has two ends. -/
  left_lt_right : a.left < a.right
  /-- The area ends on the canvas. -/
  right_lt : a.right < width
  /-- Drawing comes to its end. -/
  fault?_eq : (op.sketch count).fault? = none
  /-- Drawing keeps to the area. -/
  holds : a.Holds (op.strokes count)

/-- Whether the areas of two operators are apart. -/
def Operator.Apart (op op' : Operator) : Prop :=
  ∀ a b, op.area? = some a → op'.area? = some b → a.Apart b

theorem Operator.IsSettled.fits {op : Operator} {count width : Nat} {a : Area} {c : Canvas}
    (h : op.IsSettled count width a) (hwires : c.wires = count) (hwidth : c.width = width) :
    c.Fits (op.strokes count) := by
  intro s hs
  refine ⟨?_, h.holds.isSingle s hs⟩
  obtain ⟨hrow, hcol⟩ := Area.covers_iff.mp (h.holds.covers s hs)
  have hlow := h.within.low_nonneg
  have hhigh := h.within.high_lt
  have hleft := h.left_nonneg
  have hright := h.right_lt
  rw [Canvas.Inside, Grid.Inside, hwires, hwidth]
  omega

namespace Trace

/-- The slots of the instructions, in order. -/
def slots (t : Trace) : List Slot :=
  Slot.pack [] (t.operators.map Operator.item)

/-- The number of columns of all layers. -/
def width (t : Trace) : Nat :=
  (Slot.offset t.slots (Slot.height t.slots)).toNat

/-- The operators of the instructions, placed. -/
def placed (t : Trace) : List Operator :=
  List.zipWith (Slot.place t.slots) t.slots t.operators

/-- The diagram of a trace, once all operators have been drawn. -/
def diagram (t : Trace) (drawn : Canvas) : Diagram :=
  ⟨drawn, Slot.layers t.slots, t.placed, wireLabels t.wireCount⟩

/-- Whether some operators are those of the instructions, one for each and in order, all placed. -/
def Places (t : Trace) (ops : List Operator) : Prop :=
  List.Forall₂ (fun i op ↦ ∃ left, op = i.operator.placedAt left) t.instructions ops

/-- Whether a canvas is the one on which all operators have been drawn. -/
def Draws (t : Trace) (drawn : Canvas) : Prop :=
  (Canvas.fresh t.wireCount t.width).Inked (t.placed.flatMap fun op ↦ op.strokes t.wireCount) drawn

@[simp] theorem canvas_diagram (t : Trace) (drawn : Canvas) :
    (t.diagram drawn).canvas = drawn := rfl

variable (t : Trace)

theorem map_item_slots :
    t.slots.map (fun s ↦ (s.span, s.width)) = t.operators.map Operator.item :=
  Slot.map_pack _

theorem length_slots : t.slots.length = t.instructions.length := by
  rw [slots, Slot.length_pack, List.length_map, operators, List.length_map]

theorem length_placed : t.placed.length = t.instructions.length := by
  rw [placed, List.length_zipWith, length_slots, operators, List.length_map, Nat.min_self]

variable {t}

theorem exists_of_getElem?_slots {j : Nat} {s : Slot} (hs : t.slots[j]? = some s) :
    ∃ i ∈ t.instructions, t.instructions[j]? = some i ∧ s.span = i.span ∧
      s.width = i.operator.width ∧
      t.placed[j]? = some (i.operator.placedAt (Slot.column t.slots s)) := by
  have hlt : j < t.instructions.length := t.length_slots ▸ (List.getElem?_eq_some_iff.mp hs).1
  have hi : t.instructions[j]? = some t.instructions[j] := List.getElem?_eq_getElem hlt
  have hop : t.operators[j]? = some t.instructions[j].operator := by
    rw [operators, List.getElem?_map, hi, Option.map_some]
  have hitem := congrArg (fun items ↦ items[j]?) t.map_item_slots
  simp only [List.getElem?_map, hs, hop, Option.map_some, Option.some.injEq, Operator.item,
    Instruction.span?_operator, Option.getD_some, Prod.mk.injEq] at hitem
  refine ⟨_, List.getElem_mem hlt, hi, hitem.1, hitem.2, ?_⟩
  rw [placed, List.getElem?_zipWith, hs, hop]
  rfl

theorem places_placed (t : Trace) : t.Places t.placed := by
  refine List.forall₂_iff_get.mpr ⟨t.length_placed.symm, fun j hj hj' ↦ ?_⟩
  obtain ⟨i, -, hi, -, -, hop⟩ :=
    exists_of_getElem?_slots (List.getElem?_eq_getElem (t.length_slots ▸ hj))
  rw [List.getElem?_eq_getElem hj, Option.some.injEq] at hi
  rw [List.getElem?_eq_getElem hj', Option.some.injEq] at hop
  rw [List.get_eq_getElem, List.get_eq_getElem, hi]
  exact ⟨_, hop⟩

theorem Places.exists_pair {i i' : Instruction} {ops : List Operator} (h : t.Places ops)
    (heq : t.instructions = [i, i']) :
    ∃ left left', ops = [i.operator.placedAt left, i'.operator.placedAt left'] := by
  rw [Places, heq] at h
  obtain ⟨_, _, ⟨left, rfl⟩, hrest, rfl⟩ := List.forall₂_cons_left_iff.mp h
  obtain ⟨_, _, ⟨left', rfl⟩, hnil, rfl⟩ := List.forall₂_cons_left_iff.mp hrest
  obtain rfl := List.forall₂_nil_left_iff.mp hnil
  exact ⟨left, left', rfl⟩

/-- **Every operator settles** in the area of its slot. -/
theorem isSettled {j : Nat} {s : Slot} (hs : t.slots[j]? = some s) :
    ∃ op, t.placed[j]? = some op ∧
      op.IsSettled t.wireCount t.width (Slot.area t.slots s) := by
  obtain ⟨i, hi, -, hspan, hwidth, hop⟩ := exists_of_getElem?_slots hs
  have hwires := t.wires_lt i hi
  have hthree := i.three_le_width
  have hmem : s ∈ t.slots := List.mem_of_getElem? hs
  -- The slot is within its layer, and the layer is on the canvas.
  have hcolumn := Slot.column_mem hmem
  have hoffset := Slot.offset_nonneg t.slots s.level
  have hfit := Slot.offset_add_layerWidth_le t.slots (Slot.level_lt_height hmem)
  have harea : Slot.area t.slots s = i.area (Slot.column t.slots s) := by
    rw [Slot.area, Instruction.area, hspan, hwidth]
  obtain ⟨strokes, hsketch, hholds⟩ := Instruction.exists_holds hwires (Slot.column t.slots s)
  refine ⟨_, hop, ?_⟩
  rw [harea]
  refine ⟨Instruction.area?_placedAt _, Instruction.within_span hwires, ?_, ?_, ?_, ?_, ?_⟩
  · simp only [Instruction.area]
    omega
  · simp only [Instruction.area]
    omega
  · simp only [Instruction.area, width]
    omega
  · rw [hsketch]
    rfl
  · rw [Operator.strokes, hsketch]
    exact hholds

theorem three_le_of_mem_layers {l : Layer} (h : l ∈ Slot.layers t.slots) : 3 ≤ l.width := by
  obtain ⟨k, hk, rfl⟩ := List.mem_map.mp h
  obtain ⟨j, s, hj, rfl⟩ := Slot.exists_getElem?_pack (List.mem_range.mp hk)
  obtain ⟨i, -, -, -, hwidth, -⟩ := exists_of_getElem?_slots hj
  have hthree := i.three_le_width
  have hle : s.width ≤ Slot.layerWidth t.slots s.level :=
    Slot.width_le_layerWidth (List.mem_of_getElem? hj)
  show 3 ≤ Slot.layerWidth t.slots s.level
  omega

theorem exists_slot {j : Nat} {op : Operator} (h : t.placed[j]? = some op) :
    ∃ s, t.slots[j]? = some s ∧
      op.IsSettled t.wireCount t.width (Slot.area t.slots s) := by
  have hlt : j < t.slots.length := by
    rw [length_slots, ← length_placed]
    exact (List.getElem?_eq_some_iff.mp h).1
  obtain ⟨op', hop', hsettled⟩ := t.isSettled (List.getElem?_eq_getElem hlt)
  rw [h, Option.some.injEq] at hop'
  exact ⟨_, List.getElem?_eq_getElem hlt, hop' ▸ hsettled⟩

theorem exists_isSettled {op : Operator} (h : op ∈ t.placed) :
    ∃ a, op.IsSettled t.wireCount t.width a := by
  obtain ⟨j, hj⟩ := List.getElem?_of_mem h
  obtain ⟨s, -, hsettled⟩ := exists_slot hj
  exact ⟨_, hsettled⟩

/-- Operators that have been placed are those of the instructions. -/
theorem exists_instruction {op : Operator} (h : op ∈ t.placed) :
    ∃ i ∈ t.instructions, ∃ left, op = i.operator.placedAt left := by
  obtain ⟨j, hj⟩ := List.getElem?_of_mem h
  obtain ⟨s, hs, -⟩ := exists_slot hj
  obtain ⟨i, hi, -, -, -, hop⟩ := exists_of_getElem?_slots hs
  rw [hj, Option.some.injEq] at hop
  exact ⟨i, hi, _, hop⟩

/-- Placed operators fit the canvas of their trace, and draw there without a fault. -/
theorem fits_placed (t : Trace) : ∀ op ∈ t.placed, (op.sketch t.wireCount).fault? = none ∧
    (Canvas.fresh t.wireCount t.width).Fits (op.strokes t.wireCount) := by
  intro op hop
  obtain ⟨a, ha⟩ := exists_isSettled hop
  exact ⟨ha.fault?_eq, ha.fits rfl rfl⟩

/-- **Placed operators are apart.** -/
theorem pairwise_placed (t : Trace) : t.placed.Pairwise Operator.Apart := by
  rw [List.pairwise_iff_getElem]
  intro j k hj hk hjk a b ha hb
  obtain ⟨s, hs, hsettled⟩ := exists_slot (List.getElem?_eq_getElem hj)
  obtain ⟨s', hs', hsettled'⟩ := exists_slot (List.getElem?_eq_getElem hk)
  rw [hsettled.area?_eq, Option.some.injEq] at ha
  rw [hsettled'.area?_eq, Option.some.injEq] at hb
  obtain ⟨hj', rfl⟩ := List.getElem?_eq_some_iff.mp hs
  obtain ⟨hk', rfl⟩ := List.getElem?_eq_some_iff.mp hs'
  rw [← ha, ← hb]
  exact List.pairwise_iff_getElem.mp (Slot.pairwise_area _) j k hj' hk' hjk

end Trace

/-! ## Drawing all of them -/

namespace Canvas

theorem Inked.trans {c c' c'' : Canvas} {xs ys : List Stroke} (h : c.Inked xs c')
    (h' : c'.Inked ys c'') : c.Inked (xs ++ ys) c'' where
  run := by
    rw [strokeAll_append, h.run]
    exact h'.run
  wires_eq := h'.wires_eq.trans h.wires_eq
  width_eq := h'.width_eq.trans h.width_eq
  allSingle := h'.allSingle
  cell?_eq row col := by
    rw [h'.cell?_eq, h.cell?_eq, Option.map_map, strokesAt_append]
    congr 1
    funext x
    exact (Cell.inked_append x).symm

theorem Inked.fits_of_mem {c c' : Canvas} {xs : List Stroke} {count : Nat} {ops : List Operator}
    (h : c.Inked xs c')
    (hops : ∀ op ∈ ops, (op.sketch count).fault? = none ∧ c.Fits (op.strokes count))
    {op : Operator} (hop : op ∈ ops) :
    (op.sketch count).fault? = none ∧ c'.Fits (op.strokes count) := by
  obtain ⟨hfault, hfits⟩ := hops op hop
  refine ⟨hfault, fun s hs ↦ ?_⟩
  rw [Inside, h.wires_eq, h.width_eq]
  exact hfits s hs

theorem exists_draw {c : Canvas} {op : Operator} (hc : c.AllSingle)
    (hfault : (op.sketch c.wires).fault? = none) (hfits : c.Fits (op.strokes c.wires)) :
    ∃ c', c.draw op = (c', none) ∧ c.Inked (op.strokes c.wires) c' := by
  obtain ⟨c', hc'⟩ := exists_inked hc hfits
  have hrun : c.strokeAll (op.sketch c.wires).strokes = (c', none) := hc'.run
  refine ⟨c', ?_, hc'⟩
  rw [draw, paint, hrun, hfault]

/-- **Operators that fit are all drawn**, and every cell holds what their strokes leave of it. -/
theorem exists_drawAll {count : Nat} {ops : List Operator} :
    ∀ {c : Canvas}, c.AllSingle → c.wires = count →
      (∀ op ∈ ops, (op.sketch count).fault? = none ∧ c.Fits (op.strokes count)) →
      ∃ c', c.drawAll ops = .ok c' ∧ c.Inked (ops.flatMap fun op ↦ op.strokes count) c' := by
  induction ops with
  | nil =>
    intro c hc _ _
    have hfits : c.Fits [] := fun s hs ↦ absurd hs List.not_mem_nil
    obtain ⟨c', hc'⟩ := exists_inked hc hfits
    have hrun : (c, none) = (c', none) := hc'.run
    obtain rfl : c = c' := (Prod.mk.inj hrun).1
    exact ⟨c, rfl, hc'⟩
  | cons op ops ih =>
    intro c hc hwires hops
    obtain ⟨hfault, hfits⟩ := hops op List.mem_cons_self
    subst hwires
    obtain ⟨c', hdraw, hc'⟩ := exists_draw hc hfault hfits
    have hrest : ∀ op' ∈ ops, (op'.sketch c.wires).fault? = none ∧ c'.Fits (op'.strokes c.wires) :=
      fun op' hop' ↦ hc'.fits_of_mem hops (List.mem_cons_of_mem op hop')
    obtain ⟨c'', hall, hc''⟩ := ih hc'.allSingle hc'.wires_eq hrest
    refine ⟨c'', ?_, ?_⟩
    · rw [drawAll, hdraw]
      exact hall
    · rw [List.flatMap_cons]
      exact hc'.trans hc''

end Canvas

namespace Trace

theorem exists_span_operators (t : Trace) :
    ∀ op ∈ t.operators, ∃ span, op.span? = some span ∧ span.Within t.wireCount := by
  intro op hop
  obtain ⟨i, hi, rfl⟩ := List.mem_map.mp hop
  exact ⟨i.span, Instruction.span?_operator, Instruction.within_span (t.wires_lt i hi)⟩

theorem packLayers_operators (t : Trace) :
    packLayers t.operators t.wireCount = .ok (Slot.layers t.slots) :=
  packLayers_eq t.exists_span_operators

/-- Placement gives the placed operators, and the width of all layers. -/
theorem ofLayers_eq (t : Trace) : Placement.ofLayers (Slot.layers t.slots) t.operators =
    ⟨t.placed, .ok (Slot.offset t.slots (Slot.height t.slots))⟩ := by
  apply Placement.ofLayers_layers
  · have := congrArg (List.map Prod.snd) t.map_item_slots
    rw [List.map_map, List.map_map] at this
    exact this
  · intro op hop
    obtain ⟨i, -, rfl⟩ := List.mem_map.mp hop
    rfl

theorem wireCount_pos {t : Trace} (hne : t.instructions ≠ []) : 0 < t.wireCount := by
  obtain ⟨i, hi⟩ := List.exists_mem_of_ne_nil _ hne
  exact Nat.zero_lt_of_lt (t.wires_lt i hi i.minWire i.minWire_mem.1)

theorem totalWidth_layerWidths (t : Trace) (c : Canvas) :
    totalWidth (t.diagram c).layerWidths = t.width := by
  have := Slot.offset_nonneg t.slots (Slot.height t.slots)
  rw [Diagram.layerWidths, diagram, Slot.totalWidth_layers, width]
  omega

section Draws

variable {t : Trace} {c : Canvas} (hdraws : t.Draws c)

include hdraws

theorem height_diagram : (t.diagram c).canvas.height = 2 * t.wireCount + 1 := by
  rw [Canvas.height, canvas_diagram, hdraws.wires_eq]
  rfl

theorem width_diagram :
    ((t.diagram c).canvas.width : Int) = totalWidth (t.diagram c).layerWidths := by
  rw [totalWidth_layerWidths]
  exact congrArg Int.ofNat hdraws.width_eq

theorem length_rowLabels_diagram :
    (t.diagram c).rowLabels.length = (t.diagram c).canvas.height := by
  rw [height_diagram hdraws, diagram, wireLabels, List.length_map, List.length_range]

end Draws

end Trace

/-! ## Gates -/

/-- A gate without parameters on one wire. -/
def Instruction.single (name : String) (wire : Nat) : Instruction where
  name := name
  targets := [wire]
  controls := []
  params := []
  glyphs := []
  targets_ne_nil := List.cons_ne_nil wire []
  targets_nodup := by simp
  controls_nodup := List.nodup_nil
  disjoint := by simp

/-- A gate without parameters, on wires in a given order. -/
def Instruction.gate (name : String) (targets controls : List Nat)
    (h : targets ≠ [] ∧ (targets ++ controls).Nodup) : Instruction where
  name := name
  targets := targets
  controls := controls
  params := []
  glyphs := []
  targets_ne_nil := h.1
  targets_nodup := (List.nodup_append.mp h.2).1
  controls_nodup := (List.nodup_append.mp h.2).2.1
  disjoint w hw hw' := (List.nodup_append.mp h.2).2.2 w hw w hw' rfl

section Gate

variable {name : String} {targets controls : List Nat}
  {h : targets ≠ [] ∧ (targets ++ controls).Nodup} (left : Int)

theorem Instruction.sortedTargets_gate (hsorted : targets.Pairwise (· ≤ ·)) :
    (gate name targets controls h).sortedTargets = targets :=
  List.mergeSort_of_pairwise (hsorted.imp decide_eq_true)

theorem Instruction.wires_gate (hsorted : targets.Pairwise (· ≤ ·)) :
    ((gate name targets controls h).operator.placedAt left).wires =
      (targets ++ controls).map Int.ofNat :=
  congrArg (fun ts ↦ (ts ++ controls).map Int.ofNat) (sortedTargets_gate hsorted)

theorem Instruction.targets_gate (hsorted : targets.Pairwise (· ≤ ·)) :
    ((gate name targets controls h).operator.placedAt left).targets =
      targets.map Int.ofNat := by
  rw [targets_placedAt, targets_operator, sortedTargets_gate hsorted]

theorem Instruction.controls_gate :
    ((gate name targets controls h).operator.placedAt left).controls = controls.map Int.ofNat :=
  controls_operator

end Gate

/-- A trace of gates on one wire each. -/
def Trace.ofSingles (count : Nat) (gates : List (String × Fin count)) : Trace where
  wireCount := count
  instructions := gates.map fun g ↦ .single g.1 g.2
  wires_lt := by
    intro i hi w hw
    obtain ⟨g, -, rfl⟩ := List.mem_map.mp hi
    rw [List.mem_singleton.mp hw]
    exact g.2.isLt

end WireDiagram
