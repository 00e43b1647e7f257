import WireDiagram.Proofs.Blocks
import WireDiagram.Proofs.Decoding
import WireDiagram.Proofs.Pictures
import WireDiagram.Proofs.Tallies

/-!
# Recognising an instruction

The picture of an instruction alone is read back (`Instruction.isOf_decode`): how it is drawn, its
targets, its controls and its label. So two instructions with the same picture differ in nothing but
the order of their wires and the label of a swap, which is not drawn
(`Instruction.resembles_of_picture`).

An instruction alone is a trace, so everything that is known of diagrams is known of its picture:
what boxes and swaps show, and where dots are. What is left are the rows of wires that are neither
targets nor in a box, on which there are leads at most (`Instruction.isThread_of_leads`).
-/

namespace WireDiagram

/-! ## Characters of a canvas -/

namespace Canvas

variable {c : Canvas}

theorem charAt?_lines (h : c.AllSingle) (r k : Nat) :
    Picture.charAt? c.lines r k = (c.cell? r k).map Cell.shown := by
  rw [Picture.charAt?, lines, List.getElem?_map, ← getElem?_rows]
  cases hcells : c.rows[r]? with
  | none => rfl
  | some cells =>
    have hsingle := isSingle_of_mem_rows h (List.mem_of_getElem? hcells)
    rw [Option.map_some, Option.bind_some, Option.bind_some, Cell.render_eq_map hsingle,
      List.getElem?_map]

theorem showRows_eq_lines (c : Canvas) : c.showRows 0 none = c.lines := by
  refine List.map_congr_left fun cells hcells ↦ ?_
  rw [showSlice, Option.getD_none, ← Grid.length_of_mem_toLists hcells, Position.slice_zero_length]

end Canvas

namespace Instruction

variable {i : Instruction} {count : Nat}

/-! ## Instructions alone -/

/-- The picture of an instruction alone on `count` wires. -/
def picture (i : Instruction) (count : Nat) : Except Fault (List (List Char)) := do
  let op ← i.operator.place 0
  let canvas ← Canvas.make? count op.width
  match canvas.draw op with
  | (drawn, none) => .ok (drawn.showRows 0 none)
  | (_, some fault) => .error fault

/-- The trace of an instruction alone. -/
def alone (i : Instruction) {count : Nat} (h : ∀ w ∈ i.wires, w < count) : Trace where
  wireCount := count
  instructions := [i]
  wires_lt _ hj := List.mem_singleton.mp hj ▸ h

section Alone

variable (h : ∀ w ∈ i.wires, w < count)

include h

theorem layerWidth_alone : Slot.layerWidth (i.alone h).slots 0 = i.operator.width := by
  have hwidth := i.three_le_width
  show max i.operator.width 0 = i.operator.width
  omega

theorem column_alone :
    Slot.column (i.alone h).slots ⟨i.operator.item.1, i.operator.width, 0⟩ = 0 := by
  show totalWidth [] + (Slot.layerWidth (i.alone h).slots 0 - i.operator.width) / 2 = 0
  rw [layerWidth_alone, totalWidth_nil]
  omega

theorem width_alone : (i.alone h).width = i.operator.width.toNat := by
  show (totalWidth [Slot.layerWidth (i.alone h).slots 0]).toNat = _
  rw [layerWidth_alone, totalWidth_singleton]

theorem entries_alone :
    (i.alone h).entries = [(⟨i.operator.item.1, i.operator.width, 0⟩, i)] := rfl

theorem placed_alone : (i.alone h).placed = [i.operator.placedAt 0] := by
  rw [Trace.placed_eq_map, entries_alone, List.map_singleton, column_alone]

theorem mem_placed_alone : i.operator.placedAt 0 ∈ (i.alone h).placed := by
  rw [placed_alone]
  exact List.mem_cons_self

theorem tokens_alone (g : Glyph) : (i.alone h).tokens g = i.tokens 0 g := by
  rw [Trace.tokens, entries_alone, List.flatMap_singleton, column_alone]

/-- **A picture is a diagram** of the instruction alone, if the canvas is not too large. -/
theorem picture_eq : ∃ c, (i.alone h).Draws c ∧ i.picture count =
    if (2 * count + 1) * i.operator.width ≤ Canvas.maxCells then .ok c.lines
    else .error .badValue := by
  obtain ⟨hfault, hfits⟩ := (i.alone h).fits_placed _ (mem_placed_alone h)
  obtain ⟨c, hdraw, hinked⟩ := Canvas.exists_draw (Canvas.allSingle_fresh _ _) hfault hfits
  have hwidth := i.three_le_width
  have hplaced : i.operator.place 0 = .ok (i.operator.placedAt 0) :=
    Operator.place_of_unplaced rfl 0
  have hcolumns : (i.operator.placedAt 0).width = ((i.alone h).width : Int) := by
    rw [width_alone, Int.toNat_of_nonneg (by omega)]
    rfl
  have hcells : (2 * count + 1) * max (i.alone h).width 1 ≤ Canvas.maxCells ↔
      (2 * count + 1) * i.operator.width ≤ Canvas.maxCells := by
    have hmax : max (i.alone h).width 1 = (i.alone h).width := by
      rw [width_alone]
      omega
    rw [hmax, ← Int.ofNat_le, Int.natCast_mul, ← hcolumns]
    rfl
  have hsize : Canvas.make? count (i.operator.placedAt 0).width =
      if (2 * count + 1) * i.operator.width ≤ Canvas.maxCells then
        .ok (Canvas.fresh count (i.alone h).width) else .error .badValue := by
    rw [hcolumns, Canvas.make?_natCast, if_congr hcells rfl rfl]
  refine ⟨c, ?_, ?_⟩
  · rw [Trace.Draws, placed_alone, List.flatMap_singleton]
    exact hinked
  · by_cases hfit : (2 * count + 1) * i.operator.width ≤ Canvas.maxCells
    · simp only [picture, bind, Except.bind, hplaced, hsize, if_pos hfit, hdraw,
        Canvas.showRows_eq_lines]
    · simp only [picture, bind, Except.bind, hplaced, hsize, if_neg hfit]

theorem cell?_eq_dot_iff {c : Canvas} (hdraws : (i.alone h).Draws c) {w : Nat} {col : Int} :
    c.cell? (wireRow w) col = some (.glyph .dot) ↔ w ∈ i.controls ∧ col = i.dotColumn 0 := by
  rw [Trace.cell?_eq_token_iff (g := .dot) hdraws trivial, tokens_alone]
  constructor
  · rintro ⟨p, hp, heq⟩
    obtain ⟨v, hv, rfl⟩ := List.mem_map.mp hp
    obtain ⟨k, hk, rfl⟩ := mem_controls_operator_iff.mp hv
    obtain ⟨hrow, hcol⟩ := Prod.mk.inj heq
    obtain rfl : k = w := Int.ofNat.inj (wireRow_injective hrow)
    exact ⟨hk, hcol.symm⟩
  · rintro ⟨hw, rfl⟩
    exact ⟨_, mem_tokens_dot (mem_controls_operator_iff.mpr ⟨w, hw, rfl⟩), rfl⟩

end Alone

end Instruction

/-! ## Where no label can be -/

/-- Whether a cell shows a wire, and not more than a control or a line on it. -/
def Cell.IsThread (x : Cell) : Prop :=
  x = .glyph .wire ∨ x = .glyph .cross ∨ x = .glyph .dot

theorem Cell.isThread_inked {strokes : List Stroke} (h : ∀ s ∈ strokes, s.IsLead) :
    ∀ {x : Cell}, x.IsThread → (x.inked strokes).IsThread := by
  induction strokes with
  | nil => exact fun hx ↦ hx
  | cons s strokes ih =>
    intro x hx
    refine ih (fun s hs ↦ h s (List.mem_cons_of_mem _ hs)) ?_
    rcases h s List.mem_cons_self with ⟨row, col, rfl⟩ | ⟨row, col, rfl⟩
    · exact Or.inr (Or.inr rfl)
    · rcases hx with rfl | rfl | rfl
      · exact Or.inr (Or.inl rfl)
      · exact Or.inr (Or.inl rfl)
      · exact Or.inr (Or.inr rfl)

instance (x : Cell) : Decidable x.IsThread :=
  inferInstanceAs (Decidable (x = .glyph .wire ∨ x = .glyph .cross ∨ x = .glyph .dot))

theorem Cell.eq_of_shown_glyph {g g' : Glyph} (h : (Cell.glyph g).shown = g'.char) : g = g' :=
  Glyph.char_injective h

theorem Cell.IsThread.eq_of_shown {x : Cell} {g : Glyph} (h : x.IsThread)
    (hx : x.shown = g.char) : x = .glyph g := by
  rcases h with rfl | rfl | rfl
  · rw [eq_of_shown_glyph hx]
  · rw [eq_of_shown_glyph hx]
  · rw [eq_of_shown_glyph hx]

/-- Wires are found by the marks that their cells show. -/
theorem Canvas.mem_wiresWith_iff {c : Canvas} (h : c.AllSingle) {w col : Nat} {g : Glyph} :
    w ∈ Picture.wiresWith c.lines col g ↔
      ∃ x, c.cell? (wireRow w) col = some x ∧ x.shown = g.char := by
  have hrow : ((2 * w + 1 : Nat) : Int) = wireRow w := by
    rw [wireRow]
    omega
  rw [Picture.mem_wiresWith_iff, charAt?_lines h, hrow, Option.map_eq_some_iff]

namespace Instruction

variable {i : Instruction} {count : Nat} {c : Canvas} {label : String}

/-- A label starts with a blank. -/
theorem head?_label (hshape : i.shape = .controlledBox label) : label.toList[0]? = some ' ' := by
  obtain rfl : label = i.label := eq_label_of_mem (by rw [hshape]; rfl)
  rw [Instruction.label, Label.text, Label.pad, String.toList_append, String.toList_append]
  rfl

theorem mem_targets_operator {w : Nat} (hw : w ∈ i.targets) : (w : Int) ∈ i.operator.targets := by
  rw [targets_operator]
  exact List.mem_map_of_mem (mem_sortedTargets_iff.mpr hw)

/-- A wire on which nothing but leads is drawn is shown with no more than these. -/
theorem isThread_of_leads (h : ∀ w ∈ i.wires, w < count) (hdraws : (i.alone h).Draws c) {w : Nat}
    {col : Int} (hleads : ∀ s ∈ (i.operator.placedAt 0).strokes count, s.row = wireRow w →
      s.IsLead) {x : Cell} (hx : c.cell? (wireRow w) col = some x) : x.IsThread := by
  have hinside : (Canvas.fresh (i.alone h).wireCount (i.alone h).width).Inside (wireRow w) col := by
    have hinside := Canvas.inside_of_cell? hx
    rwa [Canvas.Inside, hdraws.wires_eq, hdraws.width_eq] at hinside
  have hfresh : Cell.fresh (wireRow w) = .glyph .wire := if_pos (by rw [wireRow]; omega)
  rw [Trace.cell?_of_inked hdraws hinside, placed_alone, List.flatMap_singleton, hfresh] at hx
  rw [← Option.some.inj hx]
  refine Cell.isThread_inked (fun s hs ↦ ?_) (Or.inl rfl)
  obtain ⟨hs, hrow, -⟩ := mem_strokesAt_iff.mp hs
  exact hleads s hs hrow

theorem isLead_of_plainBox (h : ∀ w ∈ i.wires, w < count) (hshape : i.shape = .plainBox label)
    {w : Nat} (hw : w < i.minWire ∨ i.maxWire < w) :
    ∀ s ∈ (i.operator.placedAt 0).strokes count, s.row = wireRow w → s.IsLead := by
  intro s hs hrow
  rw [strokes_plainBox h hshape] at hs
  have hcovers := (Area.covers_iff.mp ((holds_plainBox hshape 0).covers s hs)).1
  simp only [area, span] at hcovers
  rw [hrow, wireRow] at hcovers
  omega

theorem isLead_of_controlledBox (h : ∀ w ∈ i.wires, w < count)
    (hshape : i.shape = .controlledBox label) {w : Nat}
    (hw : w < i.firstTarget ∨ i.lastTarget < w) :
    ∀ s ∈ (i.operator.placedAt 0).strokes count, s.row = wireRow w → s.IsLead := by
  intro s hs hrow
  have hin := i.isIn_targetBox 0
  have htall := hin.top_lt_bottom
  have htop := i.top_targetBox 0
  have hbottom := i.bottom_targetBox 0
  obtain ⟨rest, hstrokes, hrest, -⟩ := exists_rest hshape 0
  rw [wireRow] at hrow
  rw [strokes_controlledBox h hshape, hstrokes, List.mem_append] at hs
  rcases hs with hs | hs
  · have hkeeps := (Box.keeps_of_mem_frame (Int.le_of_lt htall) hin.left_lt_right hs).row_mem
    omega
  rcases hrest s hs with hbetween | ⟨v, hv, hs⟩
  · omega
  · rcases (Box.mem_attachStrokes (outer_targetBox hshape hv) hs).2.2 with ⟨hlead, -⟩ | ⟨-, hat⟩
    · exact hlead
    · omega

theorem isLead_of_swap (h : ∀ w ∈ i.wires, w < count) (hshape : i.shape = .swap) {w : Nat}
    (hw : w ∉ i.targets) :
    ∀ s ∈ (i.operator.placedAt 0).strokes count, s.row = wireRow w → s.IsLead := by
  intro s hs hrow
  obtain ⟨first, last, heq, hlt⟩ := exists_targets_of_isSwap (isSwap_of_shape hshape)
  have hends : ∀ v ∈ [first, last], w ≠ v := fun v hv hwv ↦
    hw (mem_sortedTargets_iff.mp (heq ▸ hwv ▸ hv))
  rw [strokes_swap h hshape heq] at hs
  rcases mem_swapStrokesOf_iff.mp hs with ((rfl | ⟨r, -, rfl⟩) | rfl) | ⟨v, hv, hs⟩
  · exact absurd (Int.ofNat.inj (wireRow_injective hrow)).symm (hends first List.mem_cons_self)
  · exact Or.inr ⟨r, _, rfl⟩
  · exact absurd (Int.ofNat.inj (wireRow_injective hrow)).symm
      (hends last (List.mem_cons_of_mem first List.mem_cons_self))
  · exact (mem_controlStrokes (outer_swap hshape heq hlt hv) hs).1

end Instruction

/-! ## What pictures show -/

section ShowsBox

variable {c : Canvas} {op : Operator} {ws : List Nat} {inner : List Int} {label : String}
  {right : Int} {start low high : Nat}

/-- The wires of a box are those that enter it, if only wires with leads are shown above and below
it. -/
theorem Canvas.ShowsBox.mem_joined_iff
    (hbox : c.ShowsBox op (ws.map Int.ofNat) inner label 0 right start low high)
    (hsingle : c.AllSingle) (houter : ∀ w x, w < low ∨ high < w →
      c.cell? (wireRow (w : Nat)) 0 = some x → x.IsThread) (w : Nat) :
    w ∈ Picture.wiresWith c.lines 0 .leftWall ↔ w ∈ ws := by
  rw [Canvas.mem_wiresWith_iff hsingle]
  constructor
  · rintro ⟨x, hx, hshown⟩
    by_contra hw
    by_cases hrow : w < low ∨ high < w
    · have hthread := houter w x hrow hx
      obtain rfl := hthread.eq_of_shown hshown
      exact absurd hthread (by decide)
    · have hother : ∀ v ∈ ws.map Int.ofNat, wireRow v ≠ wireRow w := by
        rintro v hv heq
        obtain ⟨k, hk, rfl⟩ := List.mem_map.mp hv
        obtain rfl : k = w := Int.ofNat.inj (wireRow_injective heq)
        exact hw hk
      have hline := (hbox.walls (wireRow w) (by rw [wireRow]; omega) (by rw [wireRow]; omega)
        hother).1
      obtain rfl := Option.some.inj (hline.symm.trans hx)
      exact Glyph.noConfusion (Cell.eq_of_shown_glyph hshown)
  · intro hw
    exact ⟨_, (hbox.joined w (List.mem_map_of_mem hw)).1, rfl⟩

theorem Canvas.ShowsBox.textAt_eq
    (hbox : c.ShowsBox op (ws.map Int.ofNat) inner label 0 right start low high)
    (hsingle : c.AllSingle) (hpos : 0 < label.length) (hwidth : right + 1 = c.width) :
    Picture.textAt c.lines (low + high + 1) start = label := by
  have hfit := hbox.start_add_length.2
  refine Picture.textAt_eq hpos (fun chars hchars ↦ ?_) fun k ch hk ↦ ?_
  · rw [Canvas.length_of_mem_lines (fun _ ↦ Canvas.isSingle_of_mem_rows hsingle) hchars]
    omega
  · rw [Canvas.charAt?_lines hsingle]
    have hcell := hbox.written k ch hk
    push_cast
    rw [hcell]
    rfl

end ShowsBox

namespace Instruction

variable {i : Instruction} {count : Nat} {c : Canvas} {label : String}

section Decode

variable (h : ∀ w ∈ i.wires, w < count) (hdraws : (i.alone h).Draws c)

include hdraws

theorem width_of_draws : (c.width : Int) = i.operator.width := by
  have hwidth := i.three_le_width
  rw [hdraws.width_eq]
  show (((i.alone h).width : Nat) : Int) = _
  rw [width_alone]
  omega

theorem length_headD_lines : (c.lines.headD []).length = c.width := by
  have hlines : 0 < c.lines.length := by
    rw [Canvas.length_lines, Canvas.height]
    omega
  obtain ⟨chars, rest, heq⟩ := List.exists_cons_of_length_pos hlines
  rw [heq, List.headD_cons]
  exact Canvas.length_of_mem_lines (fun _ ↦ Canvas.isSingle_of_mem_rows hdraws.allSingle)
    (heq ▸ List.mem_cons_self)

theorem isOf_decode_swap (hshape : i.shape = .swap) : (Picture.decode c.lines).IsOf i := by
  have hop := mem_placed_alone h
  have hthree : i.operator.width = 3 := by rw [Operator.width, shape_operator, hshape]
  have hlength := length_headD_lines h hdraws
  have hcanvas := width_of_draws h hdraws
  have hcolumn : i.dotColumn 0 = 1 := by
    simp only [dotColumn, hshape]
    rfl
  have hmark : ∀ w ∈ i.targets, c.cell? (wireRow w) 1 = some (.glyph .swapMark) := by
    intro w hw
    obtain ⟨left, first, last, hswap⟩ := Trace.exists_connectsSwap hdraws hop hshape
    obtain rfl : 0 = left := Except.ok.inj hswap.column_eq
    exact hswap.marks w (mem_targets_operator hw)
  have hthread : ∀ w ∉ i.targets, ∀ x, c.cell? (wireRow w) 1 = some x → x.IsThread :=
    fun w hw x hx ↦ isThread_of_leads h hdraws (isLead_of_swap h hshape hw) hx
  refine Picture.isOf_decode_of_swap (by omega) hshape (fun w ↦ ?_) fun w ↦ ?_
  · rw [Canvas.mem_wiresWith_iff hdraws.allSingle]
    constructor
    · rintro ⟨x, hx, hshown⟩
      by_contra hw
      obtain rfl := (hthread w hw x hx).eq_of_shown hshown
      exact absurd (hthread w hw _ hx) (by decide)
    · exact fun hw ↦ ⟨_, hmark w hw, rfl⟩
  · rw [Canvas.mem_wiresWith_iff hdraws.allSingle]
    constructor
    · rintro ⟨x, hx, hshown⟩
      by_cases hw : w ∈ i.targets
      · obtain rfl := Option.some.inj ((hmark w hw).symm.trans hx)
        exact Glyph.noConfusion (Cell.eq_of_shown_glyph hshown)
      · obtain rfl := (hthread w hw x hx).eq_of_shown hshown
        exact ((cell?_eq_dot_iff h hdraws).mp hx).1
    · exact fun hw ↦ ⟨_, (cell?_eq_dot_iff h hdraws).mpr ⟨hw, hcolumn.symm⟩, rfl⟩

theorem isOf_decode_plainBox (hshape : i.shape = .plainBox label) :
    (Picture.decode c.lines).IsOf i := by
  have hop := mem_placed_alone h
  have hsingle := hdraws.allSingle
  have hbox : c.ShowsBox (i.operator.placedAt 0) ((i.sortedTargets ++ i.controls).map Int.ofNat)
      i.operator.controls label 0 (0 + i.operator.width - 1) (2 : Nat) i.minWire i.maxWire :=
    Trace.showsInnerBox hdraws List.mem_cons_self hop hshape
  have hcontrols : i.operator.controls ≠ [] :=
    controlCount_pos_iff.mp (decide_eq_true (controlCount_of_plainBox hshape))
  have hfit := hbox.start_add_length.2
  have hlabel : 2 ≤ label.length := i.two_le_length_label (by rw [hshape]; rfl)
  have hlength := length_headD_lines h hdraws
  have hcanvas := width_of_draws h hdraws
  refine Picture.isOf_decode_of_plainBox (by omega) hshape (fun w ↦ ?_) (fun w hw ↦ ?_) ?_
    (hbox.textAt_eq hsingle (by omega) (by omega))
  · rw [hbox.mem_joined_iff hsingle fun v x hv hx ↦
      isThread_of_leads h hdraws (isLead_of_plainBox h hshape hv) hx]
    exact mem_wires_operator_iff
  · -- Right behind the wall a control has its dot, and a target its pointer.
    rw [Canvas.mem_wiresWith_iff hsingle]
    constructor
    · rintro ⟨x, hx, hshown⟩
      refine (List.mem_append.mp hw).resolve_left fun htarget ↦ ?_
      have hpointer := hbox.pointed hcontrols w (mem_targets_operator htarget) (by omega)
      obtain rfl := Option.some.inj (hpointer.symm.trans hx)
      exact absurd hshown (by decide)
    · exact fun hcontrol ↦
        ⟨_, hbox.dotted w (mem_controls_operator_iff.mpr ⟨w, hcontrol, rfl⟩), rfl⟩
  · intro hnil
    rw [controls_operator, hnil] at hcontrols
    exact hcontrols rfl

theorem isOf_decode_controlledBox (hshape : i.shape = .controlledBox label) :
    (Picture.decode c.lines).IsOf i := by
  have hop := mem_placed_alone h
  have hsingle := hdraws.allSingle
  have hbox : c.ShowsBox (i.operator.placedAt 0) (i.sortedTargets.map Int.ofNat) [] label 0
      (0 + i.operator.width - 1) (1 : Nat) i.firstTarget i.lastTarget := by
    rw [← targets_operator]
    exact Trace.showsOuterBox hdraws List.mem_cons_self hop hshape
  have hfit := hbox.start_add_length.2
  have hlabel : 2 ≤ label.length := i.two_le_length_label (by rw [hshape]; rfl)
  have hlength := length_headD_lines h hdraws
  have hcanvas := width_of_draws h hdraws
  have hthread : ∀ {w : Nat} {col : Int} {x : Cell}, w < i.firstTarget ∨ i.lastTarget < w →
      c.cell? (wireRow w) col = some x → x.IsThread := fun hw hx ↦
    isThread_of_leads h hdraws (isLead_of_controlledBox h hshape hw) hx
  refine Picture.isOf_decode_of_controlledBox (by omega) hshape (fun w ↦ ?_) (fun w hw ↦ ?_)
    (fun w ↦ ?_) (hbox.textAt_eq hsingle (by omega) (by omega))
  · rw [hbox.mem_joined_iff hsingle fun v x ↦ hthread]
    exact mem_sortedTargets_iff
  · -- Right behind the wall of a target there is a pointer or a blank.
    rw [Canvas.mem_wiresWith_iff hsingle]
    rintro ⟨x, hx, hshown⟩
    have hlow := i.firstTarget_mem.2 w hw
    have hhigh := i.lastTarget_mem.2 w hw
    have hcell : c.cell? (wireRow w) 1 = some (.ofChar '>') ∨
        c.cell? (wireRow w) 1 = some .blank := by
      by_cases hrow : wireRow w = i.firstTarget + i.lastTarget + 1
      · rw [hrow]
        exact Or.inr (hbox.written 0 ' ' (head?_label hshape))
      · by_cases hcontrols : i.operator.controls = []
        · refine Or.inr (hbox.blank _ 1 ?_ ?_ (by omega) (by omega) (fun hat ↦ hrow hat.1)
            (fun _ v hv ↦ absurd hv List.not_mem_nil) fun _ hne ↦ absurd hcontrols hne)
          · rw [wireRow]
            omega
          · rw [wireRow]
            omega
        · exact Or.inl (hbox.pointed hcontrols w (mem_targets_operator hw) fun hat ↦ hrow hat.1)
    rcases hcell with hcell | hcell
    · obtain rfl := Option.some.inj (hcell.symm.trans hx)
      exact absurd hshown (by decide)
    · obtain rfl := Option.some.inj (hcell.symm.trans hx)
      exact absurd hshown (by decide)
  · have hcolumn : ((((c.lines.headD []).length - 1) / 2 : Nat) : Int) = i.dotColumn 0 := by
      simp only [dotColumn, hshape, midColumn]
      omega
    rw [Canvas.mem_wiresWith_iff hsingle, hcolumn]
    constructor
    · rintro ⟨⟨x, hx, hshown⟩, hw⟩
      obtain rfl := (hthread hw hx).eq_of_shown hshown
      exact ((cell?_eq_dot_iff h hdraws).mp hx).1
    · intro hw
      have hinner := hasInnerControl_of_controlledBox hshape
      exact ⟨⟨_, (cell?_eq_dot_iff h hdraws).mpr ⟨hw, rfl⟩, rfl⟩, outer_of_mem_controls hinner hw⟩

end Decode

/-- **A picture is read back.** -/
theorem isOf_decode (h : ∀ w ∈ i.wires, w < count) {rows : List (List Char)}
    (hrows : i.picture count = .ok rows) : (Picture.decode rows).IsOf i := by
  obtain ⟨c, hdraws, hpicture⟩ := picture_eq h
  rw [hpicture] at hrows
  split at hrows
  · rw [← Except.ok.inj hrows]
    cases hshape : i.shape with
    | plainBox label => exact isOf_decode_plainBox h hdraws hshape
    | controlledBox label => exact isOf_decode_controlledBox h hdraws hshape
    | swap => exact isOf_decode_swap h hdraws hshape
  · contradiction

/-- Whether two instructions differ in nothing but the order of their wires, and the label if it is
not drawn. -/
structure Resembles (i j : Instruction) : Prop where
  /-- They are drawn in the same way. -/
  name_eq : i.shape.name = j.shape.name
  /-- They have the same targets. -/
  mem_targets_iff : ∀ w, w ∈ i.targets ↔ w ∈ j.targets
  /-- They have the same controls. -/
  mem_controls_iff : ∀ w, w ∈ i.controls ↔ w ∈ j.controls
  /-- They have the same label, unless both are swaps. -/
  label_eq : ¬(i.shape = .swap ∧ j.shape = .swap) → i.label = j.label

theorem Resembles.of_isOf {r : Reading} {j : Instruction} (hi : r.IsOf i) (hj : r.IsOf j) :
    i.Resembles j where
  name_eq := by rw [← hi.shape_eq, ← hj.shape_eq]
  mem_targets_iff w := (hi.mem_targets_iff w).symm.trans (hj.mem_targets_iff w)
  mem_controls_iff w := (hi.mem_controls_iff w).symm.trans (hj.mem_controls_iff w)
  label_eq hswaps := by
    have hshape : i.shape = j.shape := hi.shape_eq.symm.trans hj.shape_eq
    have hsame : ∀ label ∈ i.shape.label?, i.label = j.label := fun label hlabel ↦
      (eq_label_of_mem hlabel).symm.trans (eq_label_of_mem (hshape ▸ hlabel))
    cases hcase : i.shape with
    | plainBox label => exact hsame label (by rw [hcase]; rfl)
    | controlledBox label => exact hsame label (by rw [hcase]; rfl)
    | swap => exact absurd ⟨hcase, hshape ▸ hcase⟩ hswaps

/-- **The picture of an instruction determines it** up to the order of its wires, and the label of a
swap. There is a picture unless the canvas is too large. -/
theorem resembles_of_picture {j : Instruction} (hi : ∀ w ∈ i.wires, w < count)
    (hj : ∀ w ∈ j.wires, w < count) :
    ((∃ rows, i.picture count = .ok rows) ↔
      (2 * count + 1) * i.operator.width ≤ Canvas.maxCells) ∧
    ∀ rows, i.picture count = .ok rows → j.picture count = .ok rows → i.Resembles j := by
  constructor
  · obtain ⟨c, -, hpicture⟩ := picture_eq hi
    rw [hpicture]
    split
    · rename_i hfit
      exact ⟨fun _ ↦ hfit, fun _ ↦ ⟨_, rfl⟩⟩
    · rename_i hfit
      refine ⟨?_, fun hfit' ↦ absurd hfit' hfit⟩
      rintro ⟨_, hrows⟩
      contradiction
  · intro rows hrows hrows'
    exact .of_isOf (isOf_decode hi hrows) (isOf_decode hj hrows')

/-- The exchange of two wires, written in one order or the other. -/
def exchange (v w : Nat) (h : v ≠ w) : Instruction where
  name := "swap"
  targets := [v, w]
  controls := []
  params := []
  glyphs := []
  targets_ne_nil := List.cons_ne_nil _ _
  targets_nodup := List.nodup_cons.mpr
    ⟨fun hmem ↦ h (List.mem_singleton.mp hmem), List.nodup_singleton w⟩
  controls_nodup := List.nodup_nil
  disjoint _ _ := List.not_mem_nil

/-- The exchange of two wires has one picture, in whichever order they are given. -/
theorem resembles_of_picture_exchange :
    (∃ rows, (exchange 0 1 (by decide)).picture 2 = .ok rows ∧
      (exchange 1 0 (by decide)).picture 2 = .ok rows) ∧
    (exchange 0 1 (by decide)).Resembles (exchange 1 0 (by decide)) := by
  have hsorted : (exchange 0 1 (by decide)).sortedTargets =
      (exchange 1 0 (by decide)).sortedTargets := by
    simp [sortedTargets, exchange, List.mergeSort]
  have hoperator : (exchange 0 1 (by decide)).operator = (exchange 1 0 (by decide)).operator := by
    simp only [operator, hsorted]
    rfl
  have hpicture : (exchange 0 1 (by decide)).picture 2 = (exchange 1 0 (by decide)).picture 2 := by
    rw [picture, hoperator, ← picture]
  obtain ⟨hexists, hresembles⟩ := @resembles_of_picture (exchange 0 1 (by decide)) 2
    (exchange 1 0 (by decide)) (by decide) (by decide)
  obtain ⟨rows, hrows⟩ := hexists.mpr (by decide)
  exact ⟨⟨rows, hrows, hpicture ▸ hrows⟩, hresembles rows hrows (hpicture ▸ hrows)⟩

end Instruction

end WireDiagram
