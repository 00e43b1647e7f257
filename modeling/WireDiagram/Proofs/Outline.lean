import WireDiagram.Proofs.Boxes

/-!
# Outlines

What the rest of the theory needs to know of a drawing is in one statement, `Area.Holds`: no stroke
leaves the area; in the rows of its edges, which it may share, it draws the edge of a box or nothing
at all; and on a fresh canvas whatever it merges joins.

Here the statement is proved for the two kinds of drawing that there are. Boxes with controls inside
and with controls outside are one of them: a frame, and strokes that trim it (`Area.holds_frame`).
Swaps are the other one (`Area.holds_swap`).
-/

namespace WireDiagram

/-! ## Strokes that keep to an area -/

/-- What is known of the strokes that an operator makes in its area. -/
structure Area.Holds (a : Area) (strokes : List Stroke) : Prop where
  /-- No stroke leaves the area. -/
  covers : ∀ s ∈ strokes, a.Covers s.row s.col
  /-- Every stroke draws a single cell. -/
  isSingle : ∀ s ∈ strokes, s.cell.IsSingle
  /-- An edge of the area is an edge of a box, or left alone. -/
  edges : ∀ side col, strokesAt (a.edge side) col strokes = [] ∨
    ∃ g, edgeMark a.left a.right side col = some g ∧
      strokesAt (a.edge side) col strokes = [.merge (a.edge side) col (.glyph g)]
  /-- On fresh cells all merges join. -/
  joins : ∀ row col, (Cell.fresh row).JoinsAll (strokesAt row col strokes)

/-! ## Frames and what trims them -/

/-- A box whose frame an area has room for. The edges are between wires, with a wire between them.
-/
structure Box.IsIn (b : Box) (a : Area) : Prop where
  /-- The row above the first wire of the box. -/
  top_eq : ∃ low, b.top = 2 * low ∧ a.span.low ≤ low
  /-- The row below the last wire of the box. -/
  bottom_eq : ∃ high, b.bottom = 2 * high + 2 ∧ high ≤ a.span.high
  /-- There is a row between the edges. -/
  top_lt_bottom : b.top < b.bottom
  /-- The box starts in the first column. -/
  left_eq : b.left = a.left
  /-- The box ends in the last column. -/
  right_eq : b.right = a.right
  /-- The ends of the box are two columns. -/
  left_lt_right : b.left < b.right

/-- Whether a stroke is one of those that follow the frame of a box in an area. Within the box and
on its edges they overwrite, above and below it they are leads, and the edges of the area are left
alone. -/
structure Box.Trims (b : Box) (a : Area) (s : Stroke) : Prop where
  /-- The stroke draws a single cell. -/
  isSingle : s.cell.IsSingle
  /-- The stroke is between the edges of the area. -/
  row_mem : a.edge .upper < s.row ∧ s.row < a.edge .lower
  /-- The stroke is in a column of the area. -/
  col_mem : a.left ≤ s.col ∧ s.col ≤ a.right
  /-- The stroke is of the kind that its row asks for. -/
  kind : s.IsPut ∧ (b.top ≤ s.row ∧ s.row ≤ b.bottom) ∨
    s.IsLead ∧ (s.row < b.top ∨ b.bottom < s.row)

namespace Box

variable {a : Area} {b : Box} {rest : List Stroke}

theorem Inscribes.trims (hb : b.IsIn a) {xs : List Stroke} (h : b.Inscribes xs) :
    ∀ s ∈ xs, b.Trims a s := by
  intro s hs
  obtain ⟨hput, hsingle, hrow, hcol⟩ := h s hs
  obtain ⟨low, htop, hlow⟩ := hb.top_eq
  obtain ⟨high, hbottom, hhigh⟩ := hb.bottom_eq
  have hleft := hb.left_eq
  have hright := hb.right_eq
  refine ⟨hsingle, ?_, by omega, Or.inl ⟨hput, by omega⟩⟩
  simp only [Area.edge]
  omega

theorem trims_attachStrokes (hb : b.IsIn a) {mid wire : Int} (hmid : a.left ≤ mid ∧ mid ≤ a.right)
    (hspan : a.span.low ≤ wire ∧ wire ≤ a.span.high)
    (houter : wireRow wire < b.top ∨ b.bottom < wireRow wire) :
    ∀ s ∈ b.attachStrokes mid (wireRow wire), b.Trims a s := by
  intro s hs
  obtain ⟨hsingle, hcol, hkind⟩ := mem_attachStrokes houter hs
  obtain ⟨low, htop, hlow⟩ := hb.top_eq
  obtain ⟨high, hbottom, hhigh⟩ := hb.bottom_eq
  have htall := hb.top_lt_bottom
  rw [wireRow] at hkind houter
  refine ⟨hsingle, ?_, by omega, ?_⟩
  · simp only [Area.edge]
    omega
  · rcases hkind with ⟨hlead, hrow⟩ | ⟨hput, hrow⟩
    · exact Or.inr ⟨hlead, by omega⟩
    · exact Or.inl ⟨hput, by omega⟩

/-- **A trimmed frame joins.** Each cell sees one merge of the frame and then overwrites, or
overwrites alone, or leads alone. -/
theorem joinsAll_frame (hb : b.IsIn a) (hrest : ∀ s ∈ rest, b.Trims a s) (row col : Int) :
    (Cell.fresh row).JoinsAll (strokesAt row col (b.frame ++ rest)) := by
  have htall := hb.top_lt_bottom
  have hframe : ∀ s ∈ b.frame, b.Keeps s := fun s hs ↦
    keeps_of_mem_frame (by omega) hb.left_lt_right hs
  by_cases hout : row < b.top ∨ b.bottom < row
  -- Above and below the box there are leads alone.
  · refine Cell.joinsAll_of_leads (fun s hs ↦ ?_) (Cell.isLed_fresh row)
    obtain ⟨hs, hat, -⟩ := mem_strokesAt_iff.mp hs
    rcases List.mem_append.mp hs with hs | hs
    · have := (hframe s hs).row_mem
      omega
    · rcases (hrest s hs).kind with ⟨-, hrow⟩ | ⟨hlead, -⟩
      · omega
      · exact hlead
  have hputs : ∀ s ∈ strokesAt row col rest, s.IsPut := by
    intro s hs
    obtain ⟨hs, hat, -⟩ := mem_strokesAt_iff.mp hs
    rcases (hrest s hs).kind with ⟨hput, -⟩ | ⟨-, hrow⟩
    · exact hput
    · omega
  rw [strokesAt_append, Cell.joinsAll_append]
  refine ⟨?_, Cell.joinsAll_of_puts hputs _⟩
  by_cases hin : b.top < row ∧ row < b.bottom
  -- Between the edges the frame overwrites as well.
  · refine Cell.joinsAll_of_puts (fun s hs ↦ ?_) _
    obtain ⟨hs, hat, -⟩ := mem_strokesAt_iff.mp hs
    exact (hframe s hs).isPut (by omega) (by omega)
  · -- What is left are the edges, which lie between wires, so the fresh cell is blank.
    obtain ⟨low, htop, -⟩ := hb.top_eq
    obtain ⟨high, hbottom, -⟩ := hb.bottom_eq
    obtain ⟨side, rfl⟩ : ∃ side, row = b.edge side := by
      rcases (by omega : row = b.top ∨ row = b.bottom) with hrow | hrow
      · exact ⟨.upper, hrow⟩
      · exact ⟨.lower, hrow⟩
    have hblank : Cell.fresh (b.edge side) = .blank := by
      apply if_neg
      cases side <;> simp only [edge] <;> omega
    rw [strokesAt_frame htall hb.left_lt_right, hblank]
    cases edgeMark b.left b.right side col with
    | none => trivial
    | some g => exact ⟨.blank _, trivial⟩

end Box

/-- **A trimmed frame keeps to its area.** -/
theorem Area.holds_frame {a : Area} {b : Box} {rest : List Stroke} (hb : b.IsIn a)
    (hrest : ∀ s ∈ rest, b.Trims a s) : a.Holds (b.frame ++ rest) := by
  obtain ⟨low, htop, hlow⟩ := hb.top_eq
  obtain ⟨high, hbottom, hhigh⟩ := hb.bottom_eq
  have htall := hb.top_lt_bottom
  have hleft := hb.left_eq
  have hright := hb.right_eq
  have hframe : ∀ s ∈ b.frame, b.Keeps s := fun s hs ↦
    Box.keeps_of_mem_frame (by omega) hb.left_lt_right hs
  refine ⟨fun s hs ↦ ?_, fun s hs ↦ ?_, fun side col ↦ ?_, Box.joinsAll_frame hb hrest⟩
  · rw [Area.covers_iff]
    rcases List.mem_append.mp hs with hs | hs
    · have hrow := (hframe s hs).row_mem
      have hcol := (hframe s hs).col_mem
      omega
    · have hrow := (hrest s hs).row_mem
      simp only [Area.edge] at hrow
      exact ⟨by omega, (hrest s hs).col_mem⟩
  · rcases List.mem_append.mp hs with hs | hs
    · exact (hframe s hs).isSingle
    · exact (hrest s hs).isSingle
  · have hnil : strokesAt (a.edge side) col rest = [] := by
      refine strokesAt_eq_nil fun s hs hat ↦ ?_
      have hrow := (hrest s hs).row_mem
      rw [hat.1] at hrow
      cases side <;> omega
    rw [strokesAt_append, hnil, List.append_nil]
    -- The box either reaches to the edge of the area or ends before it.
    by_cases hedge : a.edge side = b.edge side
    · rw [hedge, Box.strokesAt_frame htall hb.left_lt_right, hleft, hright]
      cases edgeMark a.left a.right side col with
      | none => exact Or.inl rfl
      | some g => exact Or.inr ⟨g, rfl, rfl⟩
    · refine Or.inl (strokesAt_eq_nil fun s hs hat ↦ ?_)
      have hrow := (hframe s hs).row_mem
      rw [hat.1] at hrow
      cases side <;> simp only [Area.edge, Box.edge] at hrow hedge <;> omega

/-! ## Swaps -/

section Swap

variable {a : Area} {col first last : Int} {controls : List Int}

theorem kind_of_mem_swap (hfirst : a.span.low ≤ first) (hlt : first < last)
    (hlast : last ≤ a.span.high)
    (hcontrols : ∀ c ∈ controls, (a.span.low ≤ c ∧ c ≤ a.span.high) ∧ (c < first ∨ last < c))
    {s : Stroke} (hs : s ∈ swapStrokes col (wireRow first) (wireRow last) ++
      controls.flatMap fun c ↦ controlStrokes col (wireRow c) (wireRow first) (wireRow last)) :
    s.cell.IsSingle ∧ s.col = col ∧ (2 * a.span.low < s.row ∧ s.row < 2 * a.span.high + 2) ∧
      (s.IsPut ∧ (s.row = wireRow first ∨ s.row = wireRow last) ∨
        s.IsLead ∧ s.row ≠ wireRow first ∧ s.row ≠ wireRow last) := by
  rw [List.mem_append, swapStrokes, List.mem_append, List.mem_cons, List.mem_singleton] at hs
  simp only [wireRow] at hs ⊢
  rcases hs with ((rfl | hs) | rfl) | hs
  · exact ⟨trivial, rfl, by simp only [Stroke.row]; omega, Or.inl ⟨⟨_, _, _, rfl⟩, Or.inl rfl⟩⟩
  · obtain ⟨row, hrow, rfl⟩ := mem_lineStrokes_iff.mp hs
    exact ⟨trivial, rfl, by simp only [Stroke.row]; omega,
      Or.inr ⟨Or.inr ⟨_, _, rfl⟩, by simp only [Stroke.row]; omega⟩⟩
  · exact ⟨trivial, rfl, by simp only [Stroke.row]; omega, Or.inl ⟨⟨_, _, _, rfl⟩, Or.inr rfl⟩⟩
  · obtain ⟨c, hc, hs⟩ := List.mem_flatMap.mp hs
    obtain ⟨hspan, houter⟩ := hcontrols c hc
    obtain ⟨hlead, hat, hrow⟩ := mem_controlStrokes (by omega) hs
    exact ⟨hlead.isSingle, hat, by omega, Or.inr ⟨hlead, by omega⟩⟩

/-- **A swap keeps to its area.** It never touches an edge of it, and a cell of it sees overwrites
alone or leads alone. -/
theorem Area.holds_swap (hfirst : a.span.low ≤ first) (hlt : first < last)
    (hlast : last ≤ a.span.high) (hcol : a.left ≤ col ∧ col ≤ a.right)
    (hcontrols : ∀ c ∈ controls, (a.span.low ≤ c ∧ c ≤ a.span.high) ∧ (c < first ∨ last < c)) :
    a.Holds (swapStrokes col (wireRow first) (wireRow last) ++
      controls.flatMap fun c ↦ controlStrokes col (wireRow c) (wireRow first) (wireRow last)) where
  covers s hs := by
    obtain ⟨-, hat, hrow, -⟩ := kind_of_mem_swap hfirst hlt hlast hcontrols hs
    rw [Area.covers_iff]
    omega
  isSingle s hs := (kind_of_mem_swap hfirst hlt hlast hcontrols hs).1
  edges side col' := by
    refine Or.inl (strokesAt_eq_nil fun s hs hat ↦ ?_)
    have hrow := (kind_of_mem_swap hfirst hlt hlast hcontrols hs).2.2.1
    rw [hat.1] at hrow
    cases side <;> simp only [Area.edge] at hrow <;> omega
  joins row col' := by
    by_cases hends : row = wireRow first ∨ row = wireRow last
    · refine Cell.joinsAll_of_puts (fun s hs ↦ ?_) _
      obtain ⟨hs, hat, -⟩ := mem_strokesAt_iff.mp hs
      rcases (kind_of_mem_swap hfirst hlt hlast hcontrols hs).2.2.2 with ⟨hput, -⟩ | ⟨-, hne⟩
      · exact hput
      · omega
    · refine Cell.joinsAll_of_leads (fun s hs ↦ ?_) (Cell.isLed_fresh row)
      obtain ⟨hs, hat, -⟩ := mem_strokesAt_iff.mp hs
      rcases (kind_of_mem_swap hfirst hlt hlast hcontrols hs).2.2.2 with ⟨-, hrow⟩ | ⟨hlead, -⟩
      · omega
      · exact hlead

end Swap

end WireDiagram
