import WireDiagram.Proofs.Layout

/-!
# Capacity

Four things are made at a size that is asked for: the table of free layers, the canvas, the labels
of its rows, and the line between two pages. The layout itself never fails, so a trace has a diagram
if and only if there is room for the first three, and a text if and only if there is room for the
fourth as well (`Trace.HasRoom`).

The canvas decides for the first three: where it has room, a list with an entry for every wire or
for every row has room too, so that all that is asked of a trace is `Trace.HasCanvas`.
-/

namespace WireDiagram

theorem bind_eq_of_eq_ok {ε α β : Type} {x : Except ε α} {a : α} (h : x = .ok a)
    (f : α → Except ε β) : x >>= f = f a := by
  rw [h]
  rfl

namespace Trace

/-! ## Diagrams -/

/-- Whether there is room for the canvas of a trace, with two rows for each wire, and one more, and
with the columns of all layers. A canvas without columns takes as much room as one with a single
column. -/
def HasCanvas (t : Trace) : Prop :=
  ∃ layers, packLayers t.operators t.wireCount = .ok layers ∧
    (2 * t.wireCount + 1) * max (totalWidth (layers.map Layer.width)) 1 ≤ Canvas.maxCells

/-- What a trace is refused with for want of room: if there is none for the table, it is refused for
that, and else for the canvas. -/
def canvasRefusal (t : Trace) : Fault :=
  if t.wireCount ≤ Room.maxEntries then .badValue else Room.refusal t.wireCount

variable {t : Trace}

theorem hasCanvas_iff :
    t.HasCanvas ↔ (2 * t.wireCount + 1) * max t.width 1 ≤ Canvas.maxCells := by
  have hnonneg := Slot.offset_nonneg t.slots (Slot.height t.slots)
  have hmax : max (totalWidth ((Slot.layers t.slots).map Layer.width)) 1 =
      (max t.width 1 : Nat) := by
    rw [Slot.totalWidth_layers, width]
    omega
  have hcells : (2 * (t.wireCount : Int) + 1) *
      max (totalWidth ((Slot.layers t.slots).map Layer.width)) 1 =
        ((2 * t.wireCount + 1) * max t.width 1 : Nat) := by
    rw [hmax, Int.natCast_mul]
    rfl
  rw [HasCanvas, packLayers_operators]
  constructor
  · rintro ⟨layers, heq, hle⟩
    obtain rfl := Except.ok.inj heq
    rwa [hcells, Int.ofNat_le] at hle
  · intro hle
    refine ⟨_, rfl, ?_⟩
    rwa [hcells, Int.ofNat_le]

instance : Decidable t.HasCanvas :=
  decidable_of_iff _ hasCanvas_iff.symm

theorem hasCanvas_congr {t' : Trace} (hcount : t'.wireCount = t.wireCount)
    (hwidths : (Slot.layers t.slots).map Layer.width = (Slot.layers t'.slots).map Layer.width) :
    t'.HasCanvas ↔ t.HasCanvas := by
  rw [HasCanvas, HasCanvas, packLayers_operators, packLayers_operators]
  simp only [Except.ok.injEq, exists_eq_left', hcount, hwidths]

theorem width_le_totalWidth (t : Trace) :
    (t.width : Int) ≤ totalWidth (t.operators.map Operator.width) := by
  have hwidths : t.slots.map Slot.width = t.operators.map Operator.width := by
    have hitems := congrArg (List.map Prod.snd) t.map_item_slots
    rw [List.map_map, List.map_map] at hitems
    exact hitems
  have hnonneg : ∀ s ∈ t.slots, 0 ≤ s.width := by
    intro s hs
    obtain ⟨j, hj⟩ := List.getElem?_of_mem hs
    obtain ⟨i, -, -, -, hwidth, -⟩ := exists_of_getElem?_slots hj
    have hthree := i.three_le_width
    omega
  have hle := Slot.offset_le_totalWidth hnonneg (Slot.height t.slots)
  have hzero := Slot.offset_nonneg t.slots (Slot.height t.slots)
  rw [hwidths] at hle
  rw [width]
  omega

/-- There is a canvas if there is one with all operators side by side. -/
theorem hasCanvas_of_totalWidth_le
    (h : (2 * t.wireCount + 1) * max (totalWidth (t.operators.map Operator.width)) 1 ≤
      Canvas.maxCells) : t.HasCanvas := by
  have htotal := t.width_le_totalWidth
  have hmax : ((max t.width 1 : Nat) : Int) ≤
      max (totalWidth (t.operators.map Operator.width)) 1 := by
    omega
  have hmul := Int.mul_le_mul_of_nonneg_left hmax (Int.natCast_nonneg (2 * t.wireCount + 1))
  refine hasCanvas_iff.mpr (Int.ofNat_le.mp ?_)
  rw [Int.natCast_mul]
  exact Int.le_trans hmul h

theorem HasCanvas.height_le (h : t.HasCanvas) : 2 * t.wireCount + 1 ≤ Room.maxEntries := by
  have hle := hasCanvas_iff.mp h
  calc
    2 * t.wireCount + 1 ≤ (2 * t.wireCount + 1) * max t.width 1 :=
      Nat.le_mul_of_pos_right _ (by omega)
    _ ≤ Room.maxEntries := hle

theorem packOn_eq (t : Trace) : packOn t.operators t.wireCount =
    if t.wireCount ≤ Room.maxEntries then .ok (Slot.layers t.slots)
    else .error (Room.refusal t.wireCount) := by
  rw [packOn, Room.check_natCast Room.maxEntries_le, Int.toNat_natCast, packLayers_operators]
  split <;> rfl

theorem make?_eq (t : Trace) :
    Canvas.make? t.wireCount (Slot.offset t.slots (Slot.height t.slots)) =
      if t.HasCanvas then .ok (Canvas.fresh t.wireCount t.width) else .error .badValue := by
  have hnonneg := Slot.offset_nonneg t.slots (Slot.height t.slots)
  have hwidth : Slot.offset t.slots (Slot.height t.slots) = (t.width : Int) :=
    (Int.toNat_of_nonneg hnonneg).symm
  rw [hwidth, Canvas.make?_natCast, if_congr hasCanvas_iff.symm rfl rfl]

/-- **The diagram of a trace.** Its layers, operators and labels are known in closed form, and its
canvas cell by cell. -/
theorem ofTrace_eq (h : t.HasCanvas) :
    ∃ c, t.Draws c ∧ Diagram.ofTrace t = .ok (t.diagram c) := by
  obtain ⟨c, hdraw, hinked⟩ :=
    Canvas.exists_drawAll (Canvas.allSingle_fresh t.wireCount t.width) rfl t.fits_placed
  have hheight : c.height = 2 * t.wireCount + 1 := height_diagram hinked
  have hrows := h.height_le
  have hpack : packOn t.operators t.wireCount = .ok (Slot.layers t.slots) := by
    rw [packOn_eq, if_pos (by omega)]
  have hlabels : Room.check Room.maxEntries c.height = .ok () := by
    rw [hheight, Room.check_natCast Room.maxEntries_le, if_pos hrows]
  refine ⟨c, hinked, ?_⟩
  rw [Diagram.ofTrace, bind_eq_of_eq_ok hpack]
  simp only [ofLayers_eq, make?_eq, if_pos h, bind_eq_of_eq_ok rfl, bind_eq_of_eq_ok hdraw,
    bind_eq_of_eq_ok hlabels, hinked.wires_eq]
  rfl

/-- A trace for which there is no canvas is refused before anything is drawn. -/
theorem ofTrace_of_not_hasCanvas (h : ¬t.HasCanvas) :
    Diagram.ofTrace t = .error t.canvasRefusal := by
  by_cases hcount : t.wireCount ≤ Room.maxEntries
  · simp only [Diagram.ofTrace, packOn_eq, if_pos hcount, ofLayers_eq, make?_eq, if_neg h,
      canvasRefusal, bind, Except.bind]
  · simp only [Diagram.ofTrace, packOn_eq, if_neg hcount, canvasRefusal, bind, Except.bind]

/-- **Which traces have a diagram**: those for which there is a canvas. -/
theorem exists_ofTrace_iff : (∃ d, Diagram.ofTrace t = .ok d) ↔ t.HasCanvas := by
  constructor
  · rintro ⟨d, hd⟩
    by_contra h
    rw [ofTrace_of_not_hasCanvas h] at hd
    contradiction
  · intro h
    obtain ⟨c, -, hc⟩ := ofTrace_eq h
    exact ⟨_, hc⟩

theorem exists_draws {d : Diagram} (h : Diagram.ofTrace t = .ok d) :
    ∃ c, t.Draws c ∧ d = t.diagram c := by
  obtain ⟨c, hdraws, hc⟩ := ofTrace_eq (exists_ofTrace_iff.mp ⟨d, h⟩)
  rw [h, Except.ok.injEq] at hc
  exact ⟨c, hdraws, hc⟩

/-- What holds once a trace is drawn holds of its diagram, unless there is no canvas. -/
theorem exists_ofTrace_or {P : Diagram → Prop} (h : ∀ c, t.Draws c → P (t.diagram c)) :
    (t.HasCanvas ∧ ∃ d, Diagram.ofTrace t = .ok d ∧ P d) ∨
      (¬t.HasCanvas ∧ Diagram.ofTrace t = .error t.canvasRefusal) := by
  by_cases hcanvas : t.HasCanvas
  · obtain ⟨c, hdraws, hd⟩ := ofTrace_eq hcanvas
    exact Or.inl ⟨hcanvas, _, hd, h c hdraws⟩
  · exact Or.inr ⟨hcanvas, ofTrace_of_not_hasCanvas hcanvas⟩

/-! ## Texts -/

/-- Whether there is room for the text of a trace: for its canvas, and for the line between pages.
Without instructions, neither is made. -/
def HasRoom (t : Trace) (b : PageBudget) : Prop :=
  t.instructions = [] ∨ t.HasCanvas ∧ b.columns ≤ maxColumns

/-- What a text is refused with for want of room: the canvas comes first. -/
def textRefusal (t : Trace) (b : PageBudget) : Fault :=
  if t.HasCanvas then Room.refusal b.columns else t.canvasRefusal

theorem draw_of_ofValue_error {budget : Value} {fault : Fault}
    (hb : PageBudget.ofValue budget = .error fault) : t.draw budget = .error fault := by
  rw [draw, hb]
  rfl

theorem draw_eq {budget : Value} {b : PageBudget} (hne : t.instructions ≠ [])
    (hb : PageBudget.ofValue budget = .ok b) :
    t.draw budget = (Diagram.ofTrace t).bind fun d ↦ (d.render b).map String.ofList := by
  have hempty : t.instructions.isEmpty = false := by
    rw [List.isEmpty_eq_false_iff]
    exact hne
  rw [draw, hb, hempty]
  rfl

theorem draw_of_ofTrace {d : Diagram} {budget : Value} {b : PageBudget}
    (hne : t.instructions ≠ []) (hb : PageBudget.ofValue budget = .ok b)
    (hd : Diagram.ofTrace t = .ok d) : t.draw budget = (d.render b).map String.ofList := by
  rw [draw_eq hne hb, hd]
  rfl

theorem draw_of_eq_nil (h : t.instructions = []) (budget : Value) :
    t.draw budget = (PageBudget.ofValue budget).map fun _ ↦ emptyTraceText := by
  rw [draw, h]
  rfl

/-- A text is its pages, where there is room for the line between them. -/
theorem draw_of_pages {d : Diagram} {b : PageBudget} {pages : List (List Char)}
    (hne : t.instructions ≠ []) (hd : Diagram.ofTrace t = .ok d) (hpages : d.pages b = .ok pages)
    (hcolumns : b.columns ≤ maxColumns) :
    t.draw (.int b.columns) = .ok (String.ofList (Diagram.joinPages b.columns pages)) := by
  rw [draw_of_ofTrace hne b.ofValue_columns hd, Diagram.render_eq, if_pos hcolumns, hpages]
  rfl

theorem draw_of_not_hasRoom {b : PageBudget} (h : ¬t.HasRoom b) :
    t.draw (.int b.columns) = .error (t.textRefusal b) := by
  obtain ⟨hne, hlarge⟩ := not_or.mp h
  by_cases hcanvas : t.HasCanvas
  · obtain ⟨c, -, hd⟩ := ofTrace_eq hcanvas
    rw [draw_of_ofTrace hne b.ofValue_columns hd, Diagram.render_eq,
      if_neg fun hle ↦ hlarge ⟨hcanvas, hle⟩, textRefusal, if_pos hcanvas]
    rfl
  · rw [draw_eq hne b.ofValue_columns, ofTrace_of_not_hasCanvas hcanvas, textRefusal,
      if_neg hcanvas]
    rfl

/-- What holds where there is room holds, unless the text is refused. -/
theorem or_draw_eq_error {b : PageBudget} {P : Prop} (h : t.HasRoom b → P) :
    (t.HasRoom b ∧ P) ∨
      (¬t.HasRoom b ∧ t.draw (.int b.columns) = .error (t.textRefusal b)) := by
  by_cases hroom : t.HasRoom b
  · exact Or.inl ⟨hroom, h hroom⟩
  · exact Or.inr ⟨hroom, draw_of_not_hasRoom hroom⟩

end Trace

end WireDiagram
