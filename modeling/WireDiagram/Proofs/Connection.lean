import WireDiagram.Proofs.Composition

/-!
# Controls and swaps are connected

In a diagram every control that is drawn outside of its box has a dot on its wire and a line from
there to the box, and the two ends of a swap are joined in the same way
(`Trace.exists_isConnected`). Nothing that other operators draw interrupts these lines.

## Leads

The controls of an operator share a column, so their lines run over each other and over the dots of
controls further in. Two facts settle what is left of that. Above and below the box nothing but
controls and their lines is drawn (`LeadsTo`). And on a fresh cell, dots and lines leave a dot if
there is one among them, whatever their order is, and otherwise a line that crosses the wire, if
there is a wire (`Cell.inked_leads`).

## One operator is enough

A line lies between the edges of the area of its operator, and a cell there depends on this operator
alone (`Trace.cell?_of_between_edges`).
-/

namespace WireDiagram

/-! ## Leads on one cell -/

/-- The mark of a vertical line on a row: a crossing where there is a wire, and a dot where this is
the wire of a control. -/
def leadMark (controls : List Int) (row : Int) : Glyph :=
  if row % 2 = 0 then .line else if row / 2 ∈ controls then .dot else .cross

theorem leadMark_wireRow {controls : List Int} {w : Int} (h : w ∈ controls) :
    leadMark controls (wireRow w) = .dot := by
  have hhalf : wireRow w / 2 = w := by
    rw [wireRow]
    omega
  rw [leadMark, if_neg (by rw [wireRow]; omega), hhalf, if_pos h]

namespace Cell

theorem inked_dot {strokes : List Stroke} (h : ∀ s ∈ strokes, s.IsLead) :
    (Cell.glyph .dot).inked strokes = .glyph .dot := by
  induction strokes with
  | nil => rfl
  | cons s strokes ih =>
    have hs : s.after (.glyph .dot) = .glyph .dot := by
      rcases h s List.mem_cons_self with ⟨row, col, rfl⟩ | ⟨row, col, rfl⟩ <;> rfl
    show (s.after (.glyph .dot)).inked strokes = _
    rw [hs, ih fun s hs ↦ h s (List.mem_cons_of_mem _ hs)]

theorem inked_lines {strokes : List Stroke} (h : ∀ s ∈ strokes, s.IsLead)
    (hput : ∀ s ∈ strokes, ¬s.IsPut) {g : Glyph} (hg : g = .line ∨ g = .cross) :
    (Cell.glyph g).inked strokes = .glyph g := by
  induction strokes with
  | nil => rfl
  | cons s strokes ih =>
    have hs : s.after (.glyph g) = .glyph g := by
      rcases h s List.mem_cons_self with ⟨row, col, rfl⟩ | ⟨row, col, rfl⟩
      · exact absurd ⟨row, col, _, rfl⟩ (hput _ List.mem_cons_self)
      · rcases hg with rfl | rfl <;> rfl
    show (s.after (.glyph g)).inked strokes = _
    rw [hs, ih (fun s hs ↦ h s (List.mem_cons_of_mem _ hs))
      fun s hs ↦ hput s (List.mem_cons_of_mem _ hs)]

theorem inked_of_isPut {x : Cell} {strokes : List Stroke} (h : ∀ s ∈ strokes, s.IsLead)
    (hdot : ∃ s ∈ strokes, s.IsPut) : x.inked strokes = .glyph .dot := by
  obtain ⟨s, hs, hput⟩ := hdot
  obtain ⟨before, after, rfl⟩ := List.append_of_mem hs
  have hs' : s.after (x.inked before) = .glyph .dot := by
    rcases h s hs with ⟨r, col, rfl⟩ | ⟨r, col, rfl⟩
    · rfl
    · obtain ⟨_, _, _, hmerge⟩ := hput
      cases hmerge
  rw [inked_append]
  show (s.after _).inked after = _
  rw [hs', inked_dot fun s hs ↦ h s (List.mem_append_right _ (List.mem_cons_of_mem _ hs))]

theorem inked_of_not_isPut {row : Int} {strokes : List Stroke} (hne : strokes ≠ [])
    (h : ∀ s ∈ strokes, s.IsLead) (hput : ∀ s ∈ strokes, ¬s.IsPut) :
    (Cell.fresh row).inked strokes = .glyph (leadMark [] row) := by
  obtain ⟨s, rest, rfl⟩ := List.exists_cons_of_ne_nil hne
  have hfirst : s.after (Cell.fresh row) = .glyph (leadMark [] row) := by
    rcases h s List.mem_cons_self with ⟨r, col, rfl⟩ | ⟨r, col, rfl⟩
    · exact absurd ⟨r, col, _, rfl⟩ (hput _ List.mem_cons_self)
    · by_cases hodd : row % 2 = 1
      · rw [leadMark, if_neg (by omega), if_neg List.not_mem_nil, Cell.fresh, if_pos hodd]
        rfl
      · rw [leadMark, if_pos (by omega), Cell.fresh, if_neg hodd]
        exact inked_blank r col (.glyph .line)
  have hmark : leadMark [] row = .line ∨ leadMark [] row = .cross := by
    unfold leadMark
    split
    · exact Or.inl rfl
    · exact Or.inr (if_neg List.not_mem_nil)
  show (s.after (Cell.fresh row)).inked rest = _
  rw [hfirst]
  exact inked_lines (fun s hs ↦ h s (List.mem_cons_of_mem _ hs))
    (fun s hs ↦ hput s (List.mem_cons_of_mem _ hs)) hmark

/-- **What leads leave of a fresh cell**: a dot if there is one, otherwise a line. -/
theorem inked_leads {row : Int} {controls : List Int} {strokes : List Stroke}
    (hne : strokes ≠ []) (h : ∀ s ∈ strokes, s.IsLead)
    (hdot : (∃ s ∈ strokes, s.IsPut) ↔ row % 2 = 1 ∧ row / 2 ∈ controls) :
    (Cell.fresh row).inked strokes = .glyph (leadMark controls row) := by
  by_cases hput : ∃ s ∈ strokes, s.IsPut
  · obtain ⟨hodd, hmem⟩ := hdot.mp hput
    rw [leadMark, if_neg (by omega), if_pos hmem]
    exact inked_of_isPut h hput
  · have hmark : leadMark controls row = leadMark [] row := by
      unfold leadMark
      split
      · rfl
      · rw [if_neg List.not_mem_nil, if_neg fun hmem ↦ hput (hdot.mpr ⟨by omega, hmem⟩)]
    rw [hmark]
    exact inked_of_not_isPut hne h fun s hs hs' ↦ hput ⟨s, hs, hs'⟩

theorem inked_puts {x y : Cell} {strokes : List Stroke} (hne : strokes ≠ [])
    (h : ∀ s ∈ strokes, ∃ row col, s = .put row col y) : x.inked strokes = y := by
  induction strokes generalizing x with
  | nil => exact absurd rfl hne
  | cons s strokes ih =>
    obtain ⟨row, col, rfl⟩ := h s List.mem_cons_self
    show y.inked strokes = y
    by_cases hrest : strokes = []
    · rw [hrest]
      rfl
    · exact ih hrest fun s hs ↦ h s (List.mem_cons_of_mem _ hs)

end Cell

/-! ## Leads of an operator -/

theorem mem_controlStrokes_iff {s : Stroke} {col row top bottom : Int} (htall : top ≤ bottom) :
    s ∈ controlStrokes col row top bottom ↔ s = .put row col (.glyph .dot) ∨
      ∃ r, (row < r ∧ r < top ∨ bottom < r ∧ r < row) ∧ s = .merge r col (.glyph .line) := by
  rw [controlStrokes, List.mem_cons]
  refine or_congr Iff.rfl ?_
  split
  · rw [mem_lineStrokes_iff]
    refine exists_congr fun r ↦ and_congr ?_ Iff.rfl
    omega
  · rw [mem_lineStrokes_iff]
    refine exists_congr fun r ↦ and_congr ?_ Iff.rfl
    omega

/-- Whether strokes lead from some controls to the nearer of two rows: in the column of the leads,
nothing else is drawn above and below these rows. -/
structure LeadsTo (strokes : List Stroke) (col : Int) (controls : List Int) (top bottom : Int) :
    Prop where
  /-- The one row is above the other. -/
  top_le_bottom : top ≤ bottom
  /-- No control is between the rows. -/
  outer : ∀ w ∈ controls, wireRow w < top ∨ bottom < wireRow w
  /-- Every control is drawn. -/
  mem_strokes : ∀ w ∈ controls, ∀ s ∈ controlStrokes col (wireRow w) top bottom, s ∈ strokes
  /-- What is drawn outside of the rows belongs to a control. -/
  exists_control : ∀ s ∈ strokes, s.col = col → (s.row < top ∨ bottom < s.row) →
    ∃ w ∈ controls, s ∈ controlStrokes col (wireRow w) top bottom

/-- **A lead is drawn all the way**, from the dot of its control to the row that it leads to. -/
theorem LeadsTo.inked_eq {strokes : List Stroke} {col : Int} {controls : List Int}
    {top bottom : Int} (h : LeadsTo strokes col controls top bottom) {w : Int} (hw : w ∈ controls)
    {row : Int} (hrow : wireRow w ≤ row ∧ row < top ∨ bottom < row ∧ row ≤ wireRow w) :
    (Cell.fresh row).inked (strokesAt row col strokes) = .glyph (leadMark controls row) := by
  have htall := h.top_le_bottom
  have houter := h.outer w hw
  refine Cell.inked_leads ?_ (fun s hs ↦ ?_) ⟨?_, ?_⟩
  · -- The control has drawn its dot here, or a piece of its line.
    by_cases hat : row = wireRow w
    · have hs := h.mem_strokes w hw _ ((mem_controlStrokes_iff htall).mpr (Or.inl rfl))
      exact List.ne_nil_of_mem (mem_strokesAt_iff.mpr ⟨hs, hat.symm, rfl⟩)
    · have hs := h.mem_strokes w hw _ ((mem_controlStrokes_iff htall).mpr
        (Or.inr ⟨row, by omega, rfl⟩))
      exact List.ne_nil_of_mem (mem_strokesAt_iff.mpr ⟨hs, rfl, rfl⟩)
  · obtain ⟨hs, hat, hcol⟩ := mem_strokesAt_iff.mp hs
    obtain ⟨w', hw', hmem⟩ := h.exists_control s hs hcol (by omega)
    exact (mem_controlStrokes (h.outer w' hw') hmem).1
  · rintro ⟨s, hs, hput⟩
    obtain ⟨hs, hat, hcol⟩ := mem_strokesAt_iff.mp hs
    obtain ⟨w', hw', hmem⟩ := h.exists_control s hs hcol (by omega)
    rcases (mem_controlStrokes_iff htall).mp hmem with rfl | ⟨r, -, rfl⟩
    · have hrow' : wireRow w' = row := hat
      rw [wireRow] at hrow'
      have hwire : row / 2 = w' := by omega
      exact ⟨by omega, hwire ▸ hw'⟩
    · obtain ⟨_, _, _, hmerge⟩ := hput
      cases hmerge
  · rintro ⟨hodd, hmem⟩
    have hat : wireRow (row / 2) = row := by
      rw [wireRow]
      omega
    have hs := h.mem_strokes _ hmem _
      ((mem_controlStrokes_iff htall).mpr (Or.inl rfl))
    exact ⟨_, mem_strokesAt_iff.mpr ⟨hs, hat, rfl⟩, _, _, _, rfl⟩

namespace Box

variable {b : Box} {side : Side} {s : Stroke} {col row : Int}

/-- The mark of an edge that a lead ends on. -/
def attachMark : Side → Glyph
  | .upper => .topEdge
  | .lower => .bottomEdge

/-- On the edge of a box a control outside of it draws the end of its lead and nothing else. -/
theorem eq_of_mem_attachStrokes (htall : b.top < b.bottom) (hrow : row < b.top ∨ b.bottom < row)
    (h : s ∈ b.attachStrokes col row) (hat : s.row = b.edge side) :
    s = .put (b.edge side) col (.glyph (attachMark side)) := by
  rw [attachStrokes, List.mem_append] at h
  rcases h with h | h
  · have hrows := (mem_controlStrokes hrow h).2.2
    cases side <;> simp only [edge] at hat <;> omega
  · split at h
    · rw [List.mem_singleton] at h
      subst h
      cases side with
      | upper => rfl
      | lower => exact absurd hat (Int.ne_of_lt htall)
    · rw [List.mem_singleton] at h
      subst h
      cases side with
      | upper => exact absurd hat.symm (Int.ne_of_lt htall)
      | lower => rfl

theorem mem_attachStrokes_upper (hrow : row < b.top) :
    .put b.top col (.glyph .topEdge) ∈ b.attachStrokes col row := by
  rw [attachStrokes, if_pos hrow]
  exact List.mem_append_right _ List.mem_cons_self

theorem mem_attachStrokes_lower (htall : b.top < b.bottom) (hrow : b.bottom < row) :
    .put b.bottom col (.glyph .bottomEdge) ∈ b.attachStrokes col row := by
  rw [attachStrokes, if_neg (by omega)]
  exact List.mem_append_right _ List.mem_cons_self

end Box

/-! ## The two shapes with controls outside -/

namespace Instruction

variable {i : Instruction}

theorem mem_controls_operator_iff {w : Int} :
    w ∈ i.operator.controls ↔ ∃ c ∈ i.controls, w = (c : Int) := by
  rw [controls_operator, List.mem_map]
  simp only [Int.ofNat_eq_natCast, eq_comm]

theorem mem_span_of_mem_controls {w : Int} (h : w ∈ i.operator.controls) :
    i.span.low ≤ w ∧ w ≤ i.span.high := by
  obtain ⟨c, hc, rfl⟩ := mem_controls_operator_iff.mp h
  exact mem_span (mem_wires_of_mem_controls hc)

theorem mem_span_of_mem_targets {w : Nat} (h : w ∈ i.targets) :
    i.span.low ≤ (w : Int) ∧ (w : Int) ≤ i.span.high :=
  mem_span (mem_wires_of_mem_targets h)

/-- The box around the targets, as wide as the operator and placed in column `left`. -/
def targetBox (i : Instruction) (left : Int) : Box :=
  i.boxAround left i.firstTarget i.lastTarget

/-- The column between the ends of the operator placed in column `left`. -/
def midColumn (i : Instruction) (left : Int) : Int :=
  (left + (left + i.operator.width - 1)) / 2

theorem top_targetBox (left : Int) : (i.targetBox left).top = 2 * (i.firstTarget : Int) := by
  simp only [targetBox, boxAround, wireRow]
  omega

theorem bottom_targetBox (left : Int) :
    (i.targetBox left).bottom = 2 * (i.lastTarget : Int) + 2 := by
  simp only [targetBox, boxAround, wireRow]
  omega

theorem isIn_targetBox (left : Int) : (i.targetBox left).IsIn (i.area left) :=
  i.isIn_targets left

theorem midColumn_mem (i : Instruction) (left : Int) :
    left < i.midColumn left ∧ i.midColumn left < left + i.operator.width - 1 := by
  have := i.three_le_width
  rw [midColumn]
  omega

section ControlledBox

variable {label : String} {left : Int}

theorem outer_targetBox (hshape : i.shape = .controlledBox label) {w : Int}
    (hw : w ∈ i.operator.controls) :
    wireRow w < (i.targetBox left).top ∨ (i.targetBox left).bottom < wireRow w := by
  have hinner := hasInnerControl_of_controlledBox hshape
  obtain ⟨c, hc, rfl⟩ := mem_controls_operator_iff.mp hw
  have houter := outer_of_mem_controls hinner hc
  simp only [targetBox, boxAround, wireRow]
  omega

/-- After its frame, a box with its controls outside draws inside of the box, and the controls. -/
theorem exists_rest (hshape : i.shape = .controlledBox label) (left : Int) :
    ∃ rest, i.controlledBoxStrokes left label = (i.targetBox left).frame ++ rest ∧
      (∀ s ∈ rest, ((i.targetBox left).top < s.row ∧ s.row < (i.targetBox left).bottom) ∨
        ∃ w ∈ i.operator.controls,
          s ∈ (i.targetBox left).attachStrokes (i.midColumn left) (wireRow w)) ∧
      ∀ w ∈ i.operator.controls,
        ∀ s ∈ (i.targetBox left).attachStrokes (i.midColumn left) (wireRow w), s ∈ rest := by
  refine ⟨_, rfl, fun s hs ↦ ?_, fun w hw s hs ↦ ?_⟩
  · rw [List.mem_append, List.mem_append] at hs
    rcases hs with (hs | hs) | hs
    · exact Or.inl (inscribes_targets left _ s hs).2.2.1
    · obtain ⟨c, hc, hs⟩ := List.mem_flatMap.mp hs
      exact Or.inr ⟨c, mem_controls_operator_iff.mpr ⟨c, hc, rfl⟩, hs⟩
    · exact Or.inl (inscribes_outerLabel hshape left s hs).2.2.1
  · obtain ⟨c, hc, rfl⟩ := mem_controls_operator_iff.mp hw
    exact List.mem_append_left _ (List.mem_append_right _ (List.mem_flatMap.mpr ⟨c, hc, hs⟩))

theorem leadsTo_controlledBox (hshape : i.shape = .controlledBox label) (left : Int) :
    LeadsTo (i.controlledBoxStrokes left label) (i.midColumn left) i.operator.controls
      (i.targetBox left).top (i.targetBox left).bottom := by
  have hin := i.isIn_targetBox left
  have htall := hin.top_lt_bottom
  obtain ⟨rest, hstrokes, hrest, hcontrols⟩ := exists_rest hshape left
  refine ⟨Int.le_of_lt htall, fun w hw ↦ outer_targetBox hshape hw, fun w hw s hs ↦ ?_,
    fun s hs _ hout ↦ ?_⟩
  · rw [hstrokes]
    exact List.mem_append_right _ (hcontrols w hw s (List.mem_append_left _ hs))
  · rw [hstrokes, List.mem_append] at hs
    rcases hs with hs | hs
    · have hrow := (Box.keeps_of_mem_frame (Int.le_of_lt htall) hin.left_lt_right hs).row_mem
      omega
    rcases hrest s hs with hrow | ⟨w, hw, hs⟩
    · omega
    refine ⟨w, hw, (List.mem_append.mp hs).resolve_right fun hend ↦ ?_⟩
    -- The end of the lead is on an edge.
    split at hend
    · rw [List.mem_singleton.mp hend] at hout
      simp only [Stroke.row] at hout
      omega
    · rw [List.mem_singleton.mp hend] at hout
      simp only [Stroke.row] at hout
      omega

/-- **A lead ends on the edge of its box.** -/
theorem inked_edge (hshape : i.shape = .controlledBox label) (side : Side) {w : Int}
    (hw : w ∈ i.operator.controls)
    (hend : .put ((i.targetBox left).edge side) (i.midColumn left) (.glyph (Box.attachMark side)) ∈
      (i.targetBox left).attachStrokes (i.midColumn left) (wireRow w)) :
    (Cell.fresh ((i.targetBox left).edge side)).inked (strokesAt ((i.targetBox left).edge side)
        (i.midColumn left) (i.controlledBoxStrokes left label)) =
      .glyph (Box.attachMark side) := by
  have hin := i.isIn_targetBox left
  have htall := hin.top_lt_bottom
  obtain ⟨rest, hstrokes, hrest, hcontrols⟩ := exists_rest hshape left
  rw [hstrokes, strokesAt_append, Cell.inked_append]
  -- The frame draws the edge first; then only the ends of leads follow.
  refine Cell.inked_puts (List.ne_nil_of_mem
    (mem_strokesAt_iff.mpr ⟨hcontrols w hw _ hend, rfl, rfl⟩)) fun s hs ↦ ?_
  obtain ⟨hs, hat, -⟩ := mem_strokesAt_iff.mp hs
  rcases hrest s hs with hrow | ⟨w', hw', hs⟩
  · cases side <;> simp only [Box.edge] at hat <;> omega
  · exact ⟨_, _, Box.eq_of_mem_attachStrokes htall (outer_targetBox hshape hw') hs hat⟩

end ControlledBox

section Swap

variable {left : Int} {first last : Nat}

/-- What a swap draws: its two marks, the line between them, and its controls. -/
theorem mem_swapStrokesOf_iff {s : Stroke} :
    s ∈ i.swapStrokesOf left first last ↔
      ((s = .put (wireRow first) (left + 1) (.glyph .swapMark) ∨
        ∃ row, (wireRow first < row ∧ row < wireRow last) ∧
          s = .merge row (left + 1) (.glyph .line)) ∨
        s = .put (wireRow last) (left + 1) (.glyph .swapMark)) ∨
      ∃ w ∈ i.operator.controls,
        s ∈ controlStrokes (left + 1) (wireRow w) (wireRow first) (wireRow last) := by
  rw [swapStrokesOf, swapStrokes, List.mem_append, List.mem_append, List.mem_cons,
    List.mem_singleton, mem_lineStrokes_iff, List.mem_flatMap]
  refine or_congr Iff.rfl ⟨?_, ?_⟩
  · rintro ⟨c, hc, hs⟩
    exact ⟨c, mem_controls_operator_iff.mpr ⟨c, hc, rfl⟩, hs⟩
  · rintro ⟨w, hw, hs⟩
    obtain ⟨c, hc, rfl⟩ := mem_controls_operator_iff.mp hw
    exact ⟨c, hc, hs⟩

variable (hshape : i.shape = .swap) (heq : i.sortedTargets = [first, last]) (hlt : first < last)

include hshape heq hlt

theorem outer_swap {w : Int} (hw : w ∈ i.operator.controls) :
    wireRow w < wireRow first ∨ wireRow last < wireRow w := by
  have hinner := hasInnerControl_of_swap hshape
  have hends := ends_of_sortedTargets heq hlt
  obtain ⟨c, hc, rfl⟩ := mem_controls_operator_iff.mp hw
  have houter := outer_of_mem_controls hinner hc
  simp only [wireRow]
  omega

theorem leadsTo_swap (left : Int) : LeadsTo (i.swapStrokesOf left first last) (left + 1)
    i.operator.controls (wireRow first) (wireRow last) where
  top_le_bottom := by
    simp only [wireRow]
    omega
  outer w hw := outer_swap hshape heq hlt hw
  mem_strokes w hw s hs := mem_swapStrokesOf_iff.mpr (Or.inr ⟨w, hw, hs⟩)
  exists_control s hs _ hout := by
    rcases mem_swapStrokesOf_iff.mp hs with ((rfl | ⟨row, hrow, rfl⟩) | rfl) | hcontrol
    · simp only [Stroke.row, wireRow] at hout
      omega
    · simp only [Stroke.row] at hout
      omega
    · simp only [Stroke.row, wireRow] at hout
      omega
    · exact hcontrol

theorem inked_between {row : Int} (hrow : wireRow first < row ∧ row < wireRow last) :
    (Cell.fresh row).inked (strokesAt row (left + 1) (i.swapStrokesOf left first last)) =
      .glyph (leadMark [] row) := by
  have hline : ∀ s ∈ strokesAt row (left + 1) (i.swapStrokesOf left first last),
      ∃ r, s = .merge r (left + 1) (.glyph .line) := by
    intro s hs
    obtain ⟨hs, hat, -⟩ := mem_strokesAt_iff.mp hs
    rcases mem_swapStrokesOf_iff.mp hs with ((rfl | ⟨r, -, rfl⟩) | rfl) | ⟨w, hw, hs⟩
    · simp only [Stroke.row] at hat
      omega
    · exact ⟨r, rfl⟩
    · simp only [Stroke.row] at hat
      omega
    · have hrows := (mem_controlStrokes (outer_swap hshape heq hlt hw) hs).2.2
      omega
  refine Cell.inked_of_not_isPut (List.ne_nil_of_mem (mem_strokesAt_iff.mpr
    ⟨mem_swapStrokesOf_iff.mpr (Or.inl (Or.inl (Or.inr ⟨row, hrow, rfl⟩))), rfl, rfl⟩))
    (fun s hs ↦ ?_) fun s hs ↦ ?_
  · obtain ⟨r, rfl⟩ := hline s hs
    exact Or.inr ⟨r, _, rfl⟩
  · rintro ⟨_, _, _, hput⟩
    obtain ⟨r, rfl⟩ := hline s hs
    cases hput

theorem inked_end {w : Nat} (hw : w = first ∨ w = last) :
    (Cell.fresh (wireRow w)).inked
        (strokesAt (wireRow w) (left + 1) (i.swapStrokesOf left first last)) =
      .glyph .swapMark := by
  have hmark : .put (wireRow w) (left + 1) (.glyph .swapMark) ∈
      i.swapStrokesOf left first last := by
    refine mem_swapStrokesOf_iff.mpr (Or.inl ?_)
    rcases hw with rfl | rfl
    · exact Or.inl (Or.inl rfl)
    · exact Or.inr rfl
  refine Cell.inked_puts (List.ne_nil_of_mem (mem_strokesAt_iff.mpr ⟨hmark, rfl, rfl⟩))
    fun s hs ↦ ?_
  obtain ⟨hs, hat, -⟩ := mem_strokesAt_iff.mp hs
  rcases mem_swapStrokesOf_iff.mp hs with ((rfl | ⟨r, hr, rfl⟩) | rfl) | ⟨w', hw', hs⟩
  · exact ⟨_, _, rfl⟩
  · simp only [Stroke.row, wireRow] at hat hr
    omega
  · exact ⟨_, _, rfl⟩
  · have hrows := (mem_controlStrokes (outer_swap hshape heq hlt hw') hs).2.2
    simp only [wireRow] at hat hrows
    omega

end Swap

end Instruction

/-! ## Diagrams -/

namespace Canvas

/-- Whether a column of a canvas shows a line on all rows between two rows, with dots of some
controls on it. -/
def HasLead (c : Canvas) (col : Int) (controls : List Int) (start stop : Int) : Prop :=
  ∀ row, start < row → row < stop → c.cell? row col = some (.glyph (leadMark controls row))

/-- Whether a control is shown by a dot and joined to the nearer of the rows `top` and `bottom`. -/
def JoinsControl (c : Canvas) (col : Int) (controls : List Int) (top bottom wire : Int) : Prop :=
  c.cell? (wireRow wire) col = some (.glyph .dot) ∧
    (wireRow wire < top ∧ c.HasLead col controls (wireRow wire) top ∨
      bottom < wireRow wire ∧ c.HasLead col controls bottom (wireRow wire))

/-- Whether a box with its controls outside is connected on a canvas, with the ends and the middle
of its columns and its first and last target given. -/
structure ConnectsBox (c : Canvas) (op : Operator) (left mid right low high : Int) : Prop where
  /-- The columns are those of the operator. -/
  columns_eq : op.columns = .ok (left, mid, right)
  /-- The lines are between the ends of the box. -/
  mid_mem : left < mid ∧ mid < right
  /-- The first target. -/
  min?_eq : op.targets.min? = some low
  /-- The last target. -/
  max?_eq : op.targets.max? = some high
  /-- Every control is joined to the nearer edge. -/
  controls : ∀ w ∈ op.controls, c.JoinsControl mid op.controls (2 * low) (2 * high + 2) w
  /-- The upper edge shows the end of the lines that come down to it. -/
  upper : (∃ w ∈ op.controls, w < low) → c.cell? (2 * low) mid = some (.glyph .topEdge)
  /-- The lower edge shows the end of the lines that come up to it. -/
  lower : (∃ w ∈ op.controls, high < w) → c.cell? (2 * high + 2) mid = some (.glyph .bottomEdge)

/-- Whether a swap is connected on a canvas, with its left column and its targets given. -/
structure ConnectsSwap (c : Canvas) (op : Operator) (left first last : Int) : Prop where
  /-- The column is the one of the operator. -/
  column_eq : op.column = .ok left
  /-- The targets in order. -/
  targets_eq : op.targets = [first, last] ∧ first < last
  /-- Both targets have their mark. -/
  marks : ∀ w ∈ op.targets, c.cell? (wireRow w) (left + 1) = some (.glyph .swapMark)
  /-- The marks are joined. -/
  between : c.HasLead (left + 1) [] (wireRow first) (wireRow last)
  /-- Every control is joined to the nearer target. -/
  controls : ∀ w ∈ op.controls,
    c.JoinsControl (left + 1) op.controls (wireRow first) (wireRow last) w

end Canvas

/-- **A lead is shown all the way** if nothing else is drawn there. -/
theorem LeadsTo.joinsControl {c : Canvas} {strokes : List Stroke} {col : Int} {controls : List Int}
    {top bottom : Int} (h : LeadsTo strokes col controls top bottom) {w : Int} (hw : w ∈ controls)
    (hcell : ∀ row, (wireRow w ≤ row ∧ row < top ∨ bottom < row ∧ row ≤ wireRow w) →
      c.cell? row col = some ((Cell.fresh row).inked (strokesAt row col strokes))) :
    c.JoinsControl col controls top bottom w := by
  have hlead : ∀ row, (wireRow w ≤ row ∧ row < top ∨ bottom < row ∧ row ≤ wireRow w) →
      c.cell? row col = some (.glyph (leadMark controls row)) := fun row hrow ↦ by
    rw [hcell row hrow, h.inked_eq hw hrow]
  have houter := h.outer w hw
  refine ⟨?_, houter.imp (fun habove ↦ ⟨habove, fun row hstart hstop ↦ hlead row (by omega)⟩)
    fun hbelow ↦ ⟨hbelow, fun row hstart hstop ↦ hlead row (by omega)⟩⟩
  rw [hlead _ (by omega), leadMark_wireRow hw]

namespace Trace

variable {t : Trace} {c : Canvas}

/-- What an operator leaves of a cell between the edges of its area. -/
theorem cell?_of_strokes_eq (hdraws : t.Draws c) {i : Instruction} {left : Int}
    (hop : i.operator.placedAt left ∈ t.placed) {strokes : List Stroke}
    (hstrokes : (i.operator.placedAt left).strokes t.wireCount = strokes) {row col : Int}
    (hrow : 2 * i.span.low < row ∧ row < 2 * i.span.high + 2)
    (hcol : left ≤ col ∧ col < left + i.operator.width) :
    c.cell? row col = some ((Cell.fresh row).inked (strokesAt row col strokes)) := by
  rw [cell?_of_between_edges hdraws hop (Instruction.area?_placedAt left) hrow, hstrokes]
  simp only [Instruction.area]
  omega

theorem exists_connectsBox (hdraws : t.Draws c) {op : Operator} (hop : op ∈ t.placed)
    {label : String} (hshape : op.shape = .controlledBox label) :
    ∃ left mid right low high, c.ConnectsBox op left mid right low high := by
  obtain ⟨i, hi, left, rfl⟩ := exists_instruction hop
  have hstrokes := Instruction.strokes_controlledBox (t.wires_lt i hi) hshape left
  have htop := i.top_targetBox left
  have hbottom := i.bottom_targetBox left
  have hmid := i.midColumn_mem left
  have hfirst := Instruction.mem_span_of_mem_targets i.firstTarget_mem.1
  have hlast := Instruction.mem_span_of_mem_targets i.lastTarget_mem.1
  have hcell : ∀ row, 2 * i.span.low < row → row < 2 * i.span.high + 2 →
      c.cell? row (i.midColumn left) = some ((Cell.fresh row).inked
        (strokesAt row (i.midColumn left) (i.controlledBoxStrokes left label))) :=
    fun row hlow hhigh ↦ cell?_of_strokes_eq hdraws hop hstrokes ⟨hlow, hhigh⟩ (by omega)
  refine ⟨left, i.midColumn left, left + i.operator.width - 1, i.firstTarget, i.lastTarget,
    Instruction.columns_placedAt left, hmid, Instruction.min?_targets_operator,
    Instruction.max?_targets_operator, fun w hw ↦ ?_, ?_, ?_⟩
  · have hspan := Instruction.mem_span_of_mem_controls hw
    rw [← htop, ← hbottom]
    refine (Instruction.leadsTo_controlledBox hshape left).joinsControl hw fun row hrow ↦ ?_
    rw [wireRow] at hrow
    exact hcell row (by omega) (by omega)
  · rintro ⟨w, hw, hlt⟩
    have hspan := Instruction.mem_span_of_mem_controls hw
    rw [hcell _ (by omega) (by omega), ← htop]
    refine congrArg some (Instruction.inked_edge hshape .upper hw ?_)
    apply Box.mem_attachStrokes_upper
    rw [htop, wireRow]
    omega
  · rintro ⟨w, hw, hlt⟩
    have hspan := Instruction.mem_span_of_mem_controls hw
    rw [hcell _ (by omega) (by omega), ← hbottom]
    refine congrArg some (Instruction.inked_edge hshape .lower hw ?_)
    apply Box.mem_attachStrokes_lower (i.isIn_targetBox left).top_lt_bottom
    rw [hbottom, wireRow]
    omega

theorem exists_connectsSwap (hdraws : t.Draws c) {op : Operator} (hop : op ∈ t.placed)
    (hshape : op.shape = .swap) : ∃ left first last, c.ConnectsSwap op left first last := by
  obtain ⟨i, hi, left, rfl⟩ := exists_instruction hop
  obtain ⟨first, last, heq, hlt⟩ :=
    Instruction.exists_targets_of_isSwap (Instruction.isSwap_of_shape hshape)
  have hstrokes := Instruction.strokes_swap (t.wires_lt i hi) hshape heq left
  have htargets : (i.operator.placedAt left).targets = [first, last].map Int.ofNat := by
    rw [Instruction.targets_placedAt, Instruction.targets_operator, heq]
  have hends : ∀ w ∈ [first, last], i.span.low ≤ (w : Int) ∧ (w : Int) ≤ i.span.high := fun w hw ↦
    Instruction.mem_span_of_mem_targets (Instruction.mem_sortedTargets_iff.mp (heq ▸ hw))
  have hwidth := i.three_le_width
  have hcell : ∀ row, 2 * i.span.low < row → row < 2 * i.span.high + 2 →
      c.cell? row (left + 1) = some ((Cell.fresh row).inked
        (strokesAt row (left + 1) (i.swapStrokesOf left first last))) :=
    fun row hlow hhigh ↦ cell?_of_strokes_eq hdraws hop hstrokes ⟨hlow, hhigh⟩ (by omega)
  have hfirst := hends first List.mem_cons_self
  have hlast := hends last (List.mem_cons_of_mem first List.mem_cons_self)
  refine ⟨left, first, last, rfl, ⟨htargets, Int.ofNat_lt.mpr hlt⟩, fun w hw ↦ ?_,
    fun row hstart hstop ↦ ?_, fun w hw ↦ ?_⟩
  · rw [htargets] at hw
    obtain ⟨k, hk, rfl⟩ := List.mem_map.mp hw
    have hspan := hends k hk
    rw [List.mem_cons, List.mem_singleton] at hk
    rw [Int.ofNat_eq_natCast, hcell _ (by rw [wireRow]; omega) (by rw [wireRow]; omega)]
    exact congrArg some (Instruction.inked_end hshape heq hlt hk)
  · rw [wireRow] at hstart hstop
    rw [hcell row (by omega) (by omega)]
    exact congrArg some (Instruction.inked_between hshape heq hlt (by simp only [wireRow]; omega))
  · have hspan := Instruction.mem_span_of_mem_controls hw
    refine (Instruction.leadsTo_swap hshape heq hlt left).joinsControl hw fun row hrow ↦ ?_
    simp only [wireRow] at hrow
    exact hcell row (by omega) (by omega)

/-- **Controls and swaps are connected** in the diagram of a trace. -/
theorem exists_isConnected (t : Trace) :
    (t.HasCanvas ∧ ∃ d, Diagram.ofTrace t = .ok d ∧ t.Places d.operators ∧ ∀ op ∈ d.operators,
      (∀ label, op.shape = .controlledBox label →
        ∃ left mid right low high, d.canvas.ConnectsBox op left mid right low high) ∧
      (op.shape = .swap → ∃ left first last, d.canvas.ConnectsSwap op left first last)) ∨
    (¬t.HasCanvas ∧ Diagram.ofTrace t = .error t.canvasRefusal) := by
  refine exists_ofTrace_or fun c hdraws ↦ ⟨t.places_placed, fun op hop ↦ ⟨?_, ?_⟩⟩
  · exact fun label hshape ↦ exists_connectsBox hdraws hop hshape
  · exact fun hshape ↦ exists_connectsSwap hdraws hop hshape

/-- The trace of a box with two controls above and a wire in between, and of a swap across a wire
with a control below. -/
def boxAndSwap : Trace :=
  ⟨4, [.gate "x" [3] [0, 1] (by decide), .gate "swap" [0, 2] [3] (by decide)], by decide⟩

/-- The line to a box runs from its upper control over the other one and across a wire, and the line
of a swap across a wire to its end and on to the control. -/
theorem exists_isConnected_boxAndSwap : ∃ d box swap,
    Diagram.ofTrace boxAndSwap = .ok d ∧ d.operators = [box, swap] ∧
      (∃ left mid right, box.columns = .ok (left, mid, right) ∧
        [1, 2, 3, 4, 5, 6].map (d.canvas.cell? · mid) =
          [.dot, .line, .dot, .line, .cross, .topEdge].map fun g ↦ some (.glyph g)) ∧
      ∃ left, swap.column = .ok left ∧
        [1, 2, 3, 4, 5, 6, 7].map (d.canvas.cell? · (left + 1)) =
          [.swapMark, .line, .cross, .line, .swapMark, .line, .dot].map
            fun g ↦ some (.glyph g) := by
  have hroom : boxAndSwap.HasCanvas := hasCanvas_of_totalWidth_le (by decide +kernel)
  obtain ⟨-, d, hd, hplaces, hconnected⟩ :=
    (exists_isConnected boxAndSwap).resolve_right fun h ↦ h.1 hroom
  obtain ⟨left, left', hops⟩ := hplaces.exists_pair rfl
  obtain ⟨hbox, -⟩ := hconnected _ (hops ▸ List.mem_cons_self)
  obtain ⟨-, hswap⟩ := hconnected _ (hops ▸ List.mem_cons_of_mem _ List.mem_cons_self)
  obtain ⟨left, mid, right, low, high, hbox⟩ := hbox " x " rfl
  obtain ⟨left', first, last, hswap⟩ := hswap rfl
  refine ⟨d, _, _, hd, hops, ⟨left, mid, right, hbox.columns_eq, ?_⟩, left', hswap.column_eq, ?_⟩
  · have hlow := hbox.min?_eq
    have hhigh := hbox.max?_eq
    rw [Instruction.targets_gate _ (by decide)] at hlow hhigh
    obtain rfl : 3 = low := Option.some.inj hlow
    obtain rfl : 3 = high := Option.some.inj hhigh
    have hcontrols := hbox.controls
    have hupper := hbox.upper
    rw [Instruction.controls_gate] at hcontrols hupper
    obtain ⟨hdot, hlead⟩ := hcontrols 0 List.mem_cons_self
    obtain ⟨-, hlead⟩ := hlead.resolve_right fun h ↦ absurd h.1 (by decide)
    have hedge := hupper ⟨0, List.mem_cons_self, by decide⟩
    simp only [List.map_cons, List.map_nil, List.cons.injEq, and_true]
    exact ⟨hdot, hlead 2 (by decide) (by decide), hlead 3 (by decide) (by decide),
      hlead 4 (by decide) (by decide), hlead 5 (by decide) (by decide), hedge⟩
  · have hends := hswap.targets_eq.1
    have hmarks := hswap.marks
    have hcontrols := hswap.controls
    rw [Instruction.targets_gate _ (by decide)] at hends hmarks
    rw [Instruction.controls_gate] at hcontrols
    cases hends
    obtain ⟨hdot, hlead⟩ := hcontrols 3 List.mem_cons_self
    obtain ⟨-, hlead⟩ := hlead.resolve_left fun h ↦ absurd h.1 (by decide)
    simp only [List.map_cons, List.map_nil, List.cons.injEq, and_true]
    exact ⟨hmarks 0 List.mem_cons_self, hswap.between 2 (by decide) (by decide),
      hswap.between 3 (by decide) (by decide), hswap.between 4 (by decide) (by decide),
      hmarks 2 (List.mem_cons_of_mem _ List.mem_cons_self), hlead 6 (by decide) (by decide), hdot⟩

end Trace

end WireDiagram
