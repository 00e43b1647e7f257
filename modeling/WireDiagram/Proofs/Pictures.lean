import WireDiagram.Proofs.Drawability

/-!
# Reading pictures

A picture is a list of rows of characters. `Picture.decode` reads from the picture of an instruction
how it is drawn, what its targets and its controls are, and which label it has. Here it is shown
what a picture has to show for this; that it does is a matter of drawing.

## What labels cannot hide

A label may be made of any characters, those of marks included, so a character is taken for a mark
only where no label can be: in the first column, where the wires of a box enter; in the second one,
where a label has a blank if it reaches there at all; and above and below a box.
-/

namespace WireDiagram

/-! ## Reading a picture -/

/-- What there is to say of an instruction: how it is drawn, its targets and its controls. -/
structure Reading where
  /-- The shape, with the label if it has one. -/
  shape : Shape
  /-- The targets. -/
  targets : List Nat
  /-- The controls. -/
  controls : List Nat
  deriving DecidableEq, Repr

/-- Whether a reading is the one of an instruction. -/
structure Reading.IsOf (r : Reading) (i : Instruction) : Prop where
  /-- The instruction is drawn that way. -/
  shape_eq : r.shape = i.shape
  /-- The targets are those of the instruction. -/
  mem_targets_iff : ∀ w, w ∈ r.targets ↔ w ∈ i.targets
  /-- The controls are those of the instruction. -/
  mem_controls_iff : ∀ w, w ∈ r.controls ↔ w ∈ i.controls

namespace Picture

variable {rows : List (List Char)}

/-- The character in a row and a column. -/
def charAt? (rows : List (List Char)) (row col : Nat) : Option Char :=
  rows[row]?.bind fun chars ↦ chars[col]?

/-- The wires on which a mark is shown in a column. -/
def wiresWith (rows : List (List Char)) (col : Nat) (g : Glyph) : List Nat :=
  (List.range (rows.length / 2)).filter fun w ↦ charAt? rows (2 * w + 1) col == some g.char

/-- The text in a row, from a column up to the last but one. -/
def textAt (rows : List (List Char)) (row start : Nat) : String :=
  String.ofList ((rows[row]?.getD []).drop start).dropLast

/-- What a picture says. Three columns are a swap. The wires that enter a box are its targets, and
those controls that have their dots right behind the wall; only if there are none of these, controls
are looked for above and below the box. -/
def decode (rows : List (List Char)) : Reading :=
  let width := (rows.headD []).length
  let joined := wiresWith rows 0 .leftWall
  let dotted := wiresWith rows 1 .dot
  let low := joined.min?.getD 0
  let high := joined.max?.getD 0
  if width = 3 then
    ⟨.swap, wiresWith rows 1 .swapMark, dotted⟩
  else if ∀ w ∈ joined, w ∉ dotted then
    ⟨.controlledBox (textAt rows (low + high + 1) 1), joined,
      (wiresWith rows ((width - 1) / 2) .dot).filter fun w ↦ w < low ∨ high < w⟩
  else
    ⟨.plainBox (textAt rows (low + high + 1) 2), joined.filter (· ∉ dotted),
      joined.filter (· ∈ dotted)⟩

theorem mem_wiresWith_iff {col w : Nat} {g : Glyph} :
    w ∈ wiresWith rows col g ↔ charAt? rows (2 * w + 1) col = some g.char := by
  rw [wiresWith, List.mem_filter, List.mem_range, beq_iff_eq, and_iff_right_iff_imp]
  intro h
  obtain ⟨chars, hchars, -⟩ := Option.bind_eq_some_iff.mp h
  have hlt := (List.getElem?_eq_some_iff.mp hchars).1
  omega

theorem textAt_eq {row start : Nat} {text : String} (hpos : 0 < text.length)
    (hlength : ∀ chars ∈ rows, chars.length = start + text.length + 1)
    (h : ∀ (k : Nat) (ch : Char), text.toList[k]? = some ch →
      charAt? rows row (start + k) = some ch) : textAt rows row start = text := by
  rw [← String.length_toList] at hpos hlength
  obtain ⟨chars, hchars, -⟩ :=
    Option.bind_eq_some_iff.mp (h 0 _ (List.getElem?_eq_getElem hpos))
  have hwide := hlength chars (List.mem_of_getElem? hchars)
  rw [textAt, hchars, Option.getD_some, ← String.ofList_toList (s := text)]
  congr 1
  refine List.ext_getElem ?_ fun k hk hk' ↦ ?_
  · rw [List.length_dropLast, List.length_drop]
    omega
  · have hcell := h k _ (List.getElem?_eq_getElem hk')
    rw [charAt?, hchars, Option.bind_some] at hcell
    rw [List.getElem_dropLast, List.getElem_drop]
    exact (List.getElem?_eq_some_iff.mp hcell).2

end Picture

/-! ## What is enough to read an instruction -/

namespace Picture

variable {rows : List (List Char)} {i : Instruction} {label : String}

theorem isOf_decode_of_swap (hwidth : (rows.headD []).length = 3) (hshape : i.shape = .swap)
    (htargets : ∀ w, w ∈ wiresWith rows 1 .swapMark ↔ w ∈ i.targets)
    (hcontrols : ∀ w, w ∈ wiresWith rows 1 .dot ↔ w ∈ i.controls) : (decode rows).IsOf i := by
  have hdecode : decode rows = ⟨.swap, wiresWith rows 1 .swapMark, wiresWith rows 1 .dot⟩ :=
    if_pos hwidth
  rw [hdecode]
  exact ⟨hshape.symm, htargets, hcontrols⟩

theorem isOf_decode_of_controlledBox (hwidth : (rows.headD []).length ≠ 3)
    (hshape : i.shape = .controlledBox label)
    (hjoined : ∀ w, w ∈ wiresWith rows 0 .leftWall ↔ w ∈ i.targets)
    (hdotted : ∀ w ∈ i.targets, w ∉ wiresWith rows 1 .dot)
    (hcontrols : ∀ w, w ∈ wiresWith rows (((rows.headD []).length - 1) / 2) .dot ∧
      (w < i.firstTarget ∨ i.lastTarget < w) ↔ w ∈ i.controls)
    (htext : textAt rows (i.firstTarget + i.lastTarget + 1) 1 = label) :
    (decode rows).IsOf i := by
  obtain ⟨hmin, hmax⟩ := min?_getD_congr hjoined i.targets_ne_nil
  have houtside : ∀ w ∈ wiresWith rows 0 .leftWall, w ∉ wiresWith rows 1 .dot :=
    fun w hw ↦ hdotted w ((hjoined w).mp hw)
  rw [decode, if_neg hwidth, if_pos houtside, hmin, hmax]
  refine ⟨?_, hjoined, fun w ↦ ?_⟩
  · rw [hshape]
    exact congrArg Shape.controlledBox htext
  · rw [← hcontrols w, List.mem_filter, decide_eq_true_iff]
    rfl

/-- A box on the second wire, with a control on the first. -/
example : decode (["     ", "──●──", "╭─┴─╮", "┤ x ├", "╰───╯"].map String.toList) =
    ⟨.controlledBox " x ", [1], [0]⟩ := by decide

/-- Of a box around all wires, those with a dot behind the wall are the controls. -/
theorem isOf_decode_of_plainBox (hwidth : (rows.headD []).length ≠ 3)
    (hshape : i.shape = .plainBox label)
    (hjoined : ∀ w, w ∈ wiresWith rows 0 .leftWall ↔ w ∈ i.wires)
    (hdotted : ∀ w ∈ i.wires, w ∈ wiresWith rows 1 .dot ↔ w ∈ i.controls)
    (hcontrols : i.controls ≠ [])
    (htext : textAt rows (i.minWire + i.maxWire + 1) 2 = label) : (decode rows).IsOf i := by
  obtain ⟨hmin, hmax⟩ := min?_getD_congr hjoined i.wires_ne_nil
  have hinside : ¬∀ w ∈ wiresWith rows 0 .leftWall, w ∉ wiresWith rows 1 .dot := by
    obtain ⟨w, hw⟩ := List.exists_mem_of_ne_nil i.controls hcontrols
    have hwire := Instruction.mem_wires_of_mem_controls hw
    exact fun hall ↦ hall w ((hjoined w).mpr hwire) ((hdotted w hwire).mpr hw)
  rw [decode, if_neg hwidth, if_neg hinside, hmin, hmax]
  refine ⟨?_, fun w ↦ ?_, fun w ↦ ?_⟩
  · rw [hshape]
    exact congrArg Shape.plainBox htext
  · rw [List.mem_filter, hjoined, decide_eq_true_iff]
    constructor
    · rintro ⟨hw, hundotted⟩
      exact (List.mem_append.mp hw).resolve_right fun hcontrol ↦
        hundotted ((hdotted w hw).mpr hcontrol)
    · intro hw
      have hwire := Instruction.mem_wires_of_mem_targets hw
      exact ⟨hwire, fun hdot ↦ i.disjoint w hw ((hdotted w hwire).mp hdot)⟩
  · rw [List.mem_filter, hjoined, decide_eq_true_iff]
    constructor
    · exact fun hw ↦ (hdotted w hw.1).mp hw.2
    · intro hw
      have hwire := Instruction.mem_wires_of_mem_controls hw
      exact ⟨hwire, (hdotted w hwire).mpr hw⟩

end Picture

end WireDiagram
