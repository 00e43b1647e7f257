import WireDiagram.Proofs.Layout

/-!
# Characters on a canvas

A line feed on a canvas would break its rows, and a mark on it would look like the end of a row that
goes on. There is none if no gate has one in its name (`Trace.lacks_of_draws`): operators draw
marks, blanks, the pointer at a target and the characters of their labels
(`Operator.allCells_strokes`), numbers in labels have few characters
(`OnlyInNames.not_mem_render`), and a merge never makes up a character (`Cell.merge_cases`).
-/

namespace WireDiagram

/-! ## Labels -/

theorem not_mem_intercalate {c : Char} {s : String} {texts : List String} (hs : c ∉ s.toList)
    (h : ∀ t ∈ texts, c ∉ t.toList) : c ∉ (s.intercalate texts).toList := by
  induction texts with
  | nil => simp
  | cons t texts ih =>
    have hrest := ih fun u hu ↦ h u (List.mem_cons_of_mem t hu)
    by_cases hne : texts = []
    · rw [hne, String.intercalate_singleton]
      exact h t List.mem_cons_self
    · rw [String.intercalate_cons_of_ne_nil hne, String.toList_append, String.toList_append,
        List.mem_append, List.mem_append, not_or, not_or]
      exact ⟨⟨h t List.mem_cons_self, hs⟩, hrest⟩

/-- The characters of a diagram that are no glyphs, no digits and not from the name of a gate, and
the digit that numbers are filled up with. -/
def plainChars : List Char :=
  "0.e+-naif(), >q:".toList

/-- Whether a character is in a diagram only if it is in the name of a gate. -/
structure OnlyInNames (c : Char) : Prop where
  /-- Numbers have digits. -/
  isDigit_eq : c.isDigit = false
  /-- Numbers, labels and boxes have a few other characters. -/
  not_mem_plainChars : c ∉ plainChars
  /-- Everything else is drawn with glyphs. -/
  ne_char : ∀ g : Glyph, c ≠ g.char

namespace OnlyInNames

theorem newline : OnlyInNames '\n' :=
  ⟨by decide, by decide, fun g ↦ by cases g <;> decide⟩

variable {c : Char} (hc : OnlyInNames c)

include hc

theorem ne_of_mem {x : Char} (h : x ∈ plainChars) : c ≠ x := fun hx ↦
  hc.not_mem_plainChars (hx ▸ h)

theorem not_mem_of_all {cs : List Char} (h : cs.all plainChars.contains = true) : c ∉ cs :=
  fun hmem ↦ hc.not_mem_plainChars (List.contains_iff_mem.mp (List.all_eq_true.mp h c hmem))

theorem not_mem_toDigits (n : Nat) : c ∉ Nat.toDigits 10 n := by
  intro h
  have hdigit := Nat.isDigit_of_mem_toDigits (by decide) (by decide) h
  rw [hc.isDigit_eq] at hdigit
  contradiction

theorem not_mem_zeros (n : Nat) : c ∉ List.replicate n '0' := fun h ↦
  hc.ne_of_mem (by decide) (List.eq_of_mem_replicate h)

theorem not_mem_scientific {digits : List Char} (h : c ∉ digits) (power : Int) :
    c ∉ Layout.scientific digits power := by
  unfold Layout.scientific
  simp only [List.mem_append, not_or]
  refine ⟨⟨⟨?_, ?_⟩, hc.not_mem_zeros _⟩, hc.not_mem_toDigits _⟩
  · split
    · exact List.not_mem_nil
    · exact h
    · simp only [List.mem_cons, not_or] at h ⊢
      exact ⟨h.1, hc.ne_of_mem (by decide), h.2⟩
  · split
    · exact hc.not_mem_of_all (by decide)
    · exact hc.not_mem_of_all (by decide)

theorem not_mem_positional (l : Layout) {digits : List Char} (h : c ∉ digits) (power : Int) :
    c ∉ l.positional digits power := by
  unfold Layout.positional
  split
  · simp only [List.mem_append, List.mem_cons, not_or]
    exact ⟨⟨hc.ne_of_mem (by decide), hc.ne_of_mem (by decide), hc.not_mem_zeros _⟩, h⟩
  split
  · simp only [List.mem_append, not_or]
    refine ⟨⟨h, hc.not_mem_zeros _⟩, ?_⟩
    split
    · exact hc.not_mem_of_all (by decide)
    · exact List.not_mem_nil
  · simp only [List.mem_append, List.mem_cons, not_or]
    exact ⟨fun hm ↦ h (List.mem_of_mem_take hm), hc.ne_of_mem (by decide),
      fun hm ↦ h (List.mem_of_mem_drop hm)⟩

/-- **A number is written with the characters of numbers.** -/
theorem not_mem_render (l : Layout) (x : Float) : c ∉ (l.render x).toList := by
  have hdigits : ∀ (q : Prop) [Decidable q] (n : Nat) (power : Int),
      c ∉ if q then l.positional (Nat.toDigits 10 n) power
        else Layout.scientific (Nat.toDigits 10 n) power := by
    intro q _ n power
    split
    · exact hc.not_mem_positional l (hc.not_mem_toDigits n) power
    · exact hc.not_mem_scientific (hc.not_mem_toDigits n) power
  have hmagnitude : ∀ b, c ∉ l.magnitude b := fun b ↦ hdigits _ _ _
  unfold Layout.render
  split
  · exact hc.not_mem_of_all (by decide)
  · split
    · exact hc.not_mem_of_all (by decide)
    · exact hc.not_mem_of_all (by decide)
  · rw [String.toList_ofList]
    split
    · rw [List.mem_cons, not_or]
      exact ⟨hc.ne_of_mem (by decide), hmagnitude _⟩
    · exact hmagnitude _

/-- The label of a gate has such a character only from the name. -/
theorem not_mem_label {name : String} (h : c ∉ name.toList) (params : List Float) :
    c ∉ (Label.text name params).toList := by
  have hcall : c ∉ (Label.call name (params.map Label.paramLayout.render)).toList := by
    unfold Label.call
    split
    · exact h
    · have hparams : c ∉ (",".intercalate (params.map Label.paramLayout.render)).toList := by
        refine not_mem_intercalate (hc.not_mem_of_all (by decide)) fun t ht ↦ ?_
        obtain ⟨x, -, rfl⟩ := List.mem_map.mp ht
        exact hc.not_mem_render Label.paramLayout x
      rw [String.toList_append, String.toList_append, String.toList_append]
      simp only [List.mem_append, not_or]
      exact ⟨⟨⟨h, hc.not_mem_of_all (by decide)⟩, hparams⟩, hc.not_mem_of_all (by decide)⟩
  rw [Label.text, Label.pad, String.toList_append, String.toList_append]
  simp only [List.mem_append, not_or]
  exact ⟨⟨hc.not_mem_of_all (by decide), hcall⟩, hc.not_mem_of_all (by decide)⟩

/-- The labels of wires have no such character. -/
theorem not_mem_wireLabel (wire : Nat) : c ∉ (wireLabel wire).toList := by
  have hdigits : c ∉ (toString wire).toList := by
    rw [Nat.toString_eq_repr, Nat.toList_repr]
    exact hc.not_mem_toDigits wire
  show c ∉ ("q" ++ toString wire ++ " : ").toList
  rw [String.toList_append, String.toList_append, List.mem_append, List.mem_append, not_or, not_or]
  exact ⟨⟨hc.not_mem_of_all (by decide), hdigits⟩, hc.not_mem_of_all (by decide)⟩

theorem not_mem_wireLabels {count : Nat} {label : String} (h : label ∈ wireLabels count) :
    c ∉ label.toList := by
  obtain ⟨r, -, rfl⟩ := List.mem_map.mp h
  split
  · exact hc.not_mem_wireLabel _
  · exact List.not_mem_nil

end OnlyInNames

/-! ## What is drawn -/

/-- Whether all strokes draw cells of one kind. -/
def AllCells (p : Cell → Prop) (strokes : List Stroke) : Prop :=
  ∀ s ∈ strokes, p s.cell

section AllCells

variable {p : Cell → Prop} {s : Stroke} {xs ys : List Stroke}

@[simp] theorem allCells_nil : AllCells p [] := fun _ hs ↦ absurd hs List.not_mem_nil

@[simp] theorem allCells_cons : AllCells p (s :: xs) ↔ p s.cell ∧ AllCells p xs :=
  List.forall_mem_cons

@[simp] theorem allCells_append : AllCells p (xs ++ ys) ↔ AllCells p xs ∧ AllCells p ys :=
  List.forall_mem_append

theorem allCells_flatMap {α : Type} {l : List α} {f : α → List Stroke}
    (h : ∀ a ∈ l, AllCells p (f a)) : AllCells p (l.flatMap f) := by
  intro s hs
  obtain ⟨a, ha, hs⟩ := List.mem_flatMap.mp hs
  exact h a ha s hs

theorem allCells_map {α : Type} {l : List α} {f : α → Stroke} (h : ∀ a ∈ l, p (f a).cell) :
    AllCells p (l.map f) := by
  intro s hs
  obtain ⟨a, ha, rfl⟩ := List.mem_map.mp hs
  exact h a ha

theorem allCells_sketch_append {sk sk' : Sketch} (h : AllCells p sk.strokes)
    (h' : AllCells p sk'.strokes) : AllCells p (sk ++ sk').strokes := by
  show AllCells p (sk.append sk').strokes
  unfold Sketch.append
  split
  · exact h
  · exact allCells_append.mpr ⟨h, h'⟩

/-- Whether a kind of cells has all marks, the blank and the pointer at a target. -/
structure HasMarks (p : Cell → Prop) : Prop where
  /-- The marks. -/
  glyph : ∀ g, p (.glyph g)
  /-- The blank inside of a box. -/
  blank : p .blank
  /-- The pointer at a target. -/
  pointer : p (.ofChar '>')

variable (hp : HasMarks p)

include hp

theorem allCells_lineStrokes (col start stop : Int) : AllCells p (lineStrokes col start stop) :=
  allCells_map fun _ _ ↦ hp.glyph _

theorem allCells_controlStrokes (col row top bottom : Int) :
    AllCells p (controlStrokes col row top bottom) := by
  rw [controlStrokes, allCells_cons]
  refine ⟨hp.glyph _, ?_⟩
  split
  · exact allCells_lineStrokes hp _ _ _
  · exact allCells_lineStrokes hp _ _ _

theorem allCells_attachStrokes (b : Box) (col row : Int) :
    AllCells p (b.attachStrokes col row) := by
  rw [Box.attachStrokes, allCells_append]
  refine ⟨allCells_controlStrokes hp _ _ _ _, ?_⟩
  split
  · exact allCells_cons.mpr ⟨hp.glyph _, allCells_nil⟩
  · exact allCells_cons.mpr ⟨hp.glyph _, allCells_nil⟩

theorem allCells_swapStrokes (col row₀ row₁ : Int) : AllCells p (swapStrokes col row₀ row₁) := by
  rw [swapStrokes, allCells_append, allCells_cons]
  exact ⟨⟨hp.glyph _, allCells_lineStrokes hp _ _ _⟩, allCells_cons.mpr ⟨hp.glyph _, allCells_nil⟩⟩

theorem allCells_frame (b : Box) : AllCells p b.frame := by
  rw [Box.frame, allCells_append, allCells_append]
  refine ⟨⟨allCells_flatMap fun col _ ↦ ?_, allCells_flatMap fun row _ ↦ ?_⟩, ?_⟩
  · simp only [allCells_cons, allCells_nil, and_true]
    exact ⟨hp.glyph _, hp.glyph _⟩
  · rw [allCells_cons, allCells_cons]
    exact ⟨hp.glyph _, hp.glyph _, allCells_map fun _ _ ↦ hp.blank⟩
  · simp only [Box.corners, allCells_cons, allCells_nil, and_true]
    exact ⟨hp.glyph _, hp.glyph _, hp.glyph _, hp.glyph _⟩

theorem allCells_targetMarks (b : Box) (marked : Bool) (targets : List Int) :
    AllCells p (b.targetMarks marked targets) := by
  refine allCells_flatMap fun wire _ ↦ ?_
  rw [allCells_append, Box.joinWire, allCells_cons, allCells_cons]
  refine ⟨⟨hp.glyph _, hp.glyph _, allCells_nil⟩, ?_⟩
  split
  · exact allCells_cons.mpr ⟨hp.pointer, allCells_nil⟩
  · exact allCells_nil

theorem allCells_controlMarks (b : Box) (controls : List Int) :
    AllCells p (b.controlMarks controls) := by
  refine allCells_flatMap fun wire _ ↦ ?_
  simp only [allCells_cons, allCells_nil, and_true]
  exact ⟨hp.glyph _, hp.glyph _, hp.glyph _⟩

omit hp in
theorem allCells_labelStrokes {b : Box} {col : Int} {label : String}
    (h : ∀ ch ∈ label.toList, p (.ofChar ch)) : AllCells p (b.labelStrokes col label) := by
  refine allCells_map fun a ha ↦ ?_
  obtain ⟨ch, k⟩ := a
  exact h ch (List.fst_mem_of_mem_zipIdx ha)

omit hp in
theorem allCells_controlSketch {count : Nat} {strokes : Int → List Stroke}
    (h : ∀ row, AllCells p (strokes row)) (wires : List Int) :
    AllCells p (controlSketch count strokes wires).strokes := by
  induction wires with
  | nil => exact allCells_nil
  | cons wire wires ih =>
    rw [controlSketch]
    split
    · exact allCells_append.mpr ⟨h _, ih⟩
    · exact allCells_nil

end AllCells

namespace Operator

variable {p : Cell → Prop} (hp : HasMarks p) (op : Operator) (count : Nat)

include hp

theorem allCells_plainBox {label : String} (hlabel : ∀ ch ∈ label.toList, p (.ofChar ch)) :
    AllCells p (Sketch.ofExcept (op.plainBoxSketch count label)).strokes := by
  rw [plainBoxSketch]
  rcases op.box count op.wires with fault | b
  · exact allCells_nil
  show AllCells p (b.frame ++ b.targetMarks _ _ ++ b.controlMarks _ ++ b.labelStrokes _ label)
  rw [allCells_append, allCells_append, allCells_append]
  exact ⟨⟨⟨allCells_frame hp b, allCells_targetMarks hp b _ _⟩, allCells_controlMarks hp b _⟩,
    allCells_labelStrokes hlabel⟩

theorem allCells_controlledBox {label : String} (hlabel : ∀ ch ∈ label.toList, p (.ofChar ch)) :
    AllCells p (Sketch.ofExcept (op.controlledBoxSketch count label)).strokes := by
  rw [controlledBoxSketch]
  rcases op.box count op.targets with fault | b
  · exact allCells_nil
  rcases op.columns with fault | ⟨left, mid, right⟩
  · exact allCells_nil
  apply allCells_sketch_append
  · apply allCells_sketch_append
    · exact allCells_append.mpr ⟨allCells_frame hp b, allCells_targetMarks hp b _ _⟩
    · exact allCells_controlSketch (fun row ↦ allCells_attachStrokes hp b mid row) op.controls
  · exact allCells_labelStrokes hlabel

theorem allCells_swap : AllCells p (Sketch.ofExcept (op.swapSketch count)).strokes := by
  rw [swapSketch]
  rcases op.column with fault | left
  · exact allCells_nil
  rcases op.wireRowAt count 0 with fault | row₀
  · exact allCells_nil
  rcases op.wireRowAt count 1 with fault | row₁
  · exact allCells_nil
  apply allCells_sketch_append
  · exact allCells_swapStrokes hp _ _ _
  · exact allCells_controlSketch (fun row ↦ allCells_controlStrokes hp _ _ _ _) op.controls

/-- **What an operator draws**: marks, blanks, pointers and the characters of its label. -/
theorem allCells_strokes
    (hlabel : ∀ label ∈ op.shape.label?, ∀ ch ∈ label.toList, p (.ofChar ch)) :
    AllCells p (op.strokes count) := by
  rw [strokes, sketch]
  cases hshape : op.shape with
  | plainBox label => exact op.allCells_plainBox hp count (hlabel label (by rw [hshape]; rfl))
  | controlledBox label =>
    exact op.allCells_controlledBox hp count (hlabel label (by rw [hshape]; rfl))
  | swap => exact op.allCells_swap hp count

end Operator

/-! ## What is left on a canvas -/

theorem HasMarks.overlay {p : Cell → Prop} (hp : HasMarks p) {x y : Cell} (hx : p x) (hy : p y) :
    p (x.overlay y) := by
  cases hmerge : x.merge y with
  | error fault =>
    rw [Cell.overlay, hmerge]
    exact hx
  | ok z =>
    rw [Cell.overlay_of_merge hmerge]
    rcases Cell.merge_cases hmerge with rfl | rfl | ⟨g, -, rfl⟩
    · exact hx
    · exact hy
    · exact hp.glyph g

/-- Strokes leave nothing but what they draw and what was there, and marks. -/
theorem HasMarks.inked {p : Cell → Prop} (hp : HasMarks p) {strokes : List Stroke} :
    ∀ {x : Cell}, p x → AllCells p strokes → p (x.inked strokes) := by
  induction strokes with
  | nil =>
    intro x hx _
    exact hx
  | cons s strokes ih =>
    intro x hx h
    obtain ⟨hs, hstrokes⟩ := allCells_cons.mp h
    refine ih ?_ hstrokes
    cases s with
    | put row col y => exact hs
    | merge row col y => exact hp.overlay hx hs

theorem HasMarks.fresh {p : Cell → Prop} (hp : HasMarks p) (row : Int) : p (Cell.fresh row) := by
  unfold Cell.fresh
  split
  · exact hp.glyph .wire
  · exact hp.blank

/-- Whether a cell does not show a character. -/
def Cell.Lacks (c : Char) (x : Cell) : Prop :=
  c ∉ x.chars

/-- Whether a cell shows no line feed. -/
def Cell.IsLineFree (x : Cell) : Prop :=
  '\n' ∉ x.chars

instance (x : Cell) : Decidable x.IsLineFree :=
  inferInstanceAs (Decidable ('\n' ∉ x.chars))

theorem OnlyInNames.hasMarks_lacks {c : Char} (hc : OnlyInNames c) :
    HasMarks (Cell.Lacks c) where
  glyph g hmem := hc.ne_char g (List.mem_singleton.mp hmem)
  blank := hc.not_mem_of_all (by decide)
  pointer := hc.not_mem_of_all (by decide)

/-- **No character is made up**: what is found in names only is not drawn unless some gate has it in
its name. -/
theorem Trace.lacks_of_draws {t : Trace} {c : Canvas} (hdraws : t.Draws c) {ch : Char}
    (hch : OnlyInNames ch) (hnames : ∀ i ∈ t.instructions, ch ∉ i.name.toList) {row col : Int}
    {x : Cell} (hx : c.cell? row col = some x) : x.Lacks ch := by
  have hstrokes : AllCells (Cell.Lacks ch) (t.placed.flatMap fun op ↦ op.strokes t.wireCount) := by
    refine allCells_flatMap fun op hop ↦ op.allCells_strokes hch.hasMarks_lacks _ ?_
    intro label hlabel ch' hch'
    obtain ⟨i, hi, left, rfl⟩ := exists_instruction hop
    obtain rfl : label = i.label := Instruction.eq_label_of_mem hlabel
    intro hmem
    obtain rfl : ch = ch' := List.mem_singleton.mp hmem
    exact hch.not_mem_label (hnames i hi) i.params hch'
  rw [hdraws.cell?_eq] at hx
  obtain ⟨y, hy, rfl⟩ := Option.map_eq_some_iff.mp hx
  rw [Canvas.cell?_fresh_of_inside (Canvas.inside_of_cell? hy), Option.some.injEq] at hy
  refine hch.hasMarks_lacks.inked (hy ▸ hch.hasMarks_lacks.fresh row) fun s hs ↦ ?_
  exact hstrokes s (mem_strokesAt_iff.mp hs).1

end WireDiagram
