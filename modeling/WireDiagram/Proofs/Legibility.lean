import WireDiagram.Proofs.Decoding
import WireDiagram.Proofs.Tallies

/-!
# Legible diagrams

The names of gates are drawn as they are, whatever characters they have. So there is a character in
a diagram that cannot be printed if and only if some gate has one in its name, and a page is no
rectangle of lines if and only if some gate has a line feed in its name
(`Trace.exists_legible_iff`).

## Nothing is lost

A name is in the label of a box, and labels are not drawn over; only a swap has no label, and its
name is known (`Trace.exists_cell?_iff`). Every column of a row is on some page
(`Diagram.IsRegular.exists_mem_linesFrom`), and a line feed on a page makes one line more than there
are rows.
-/

namespace WireDiagram

open Split

/-! ## Characters that can be printed -/

namespace Printable

variable {c : Char}

theorem isPrintable_of_gap (low high : Nat)
    (hgap : unprintableRanges.all (fun r ↦ r.2 < low || high < r.1) = true)
    (h : low ≤ c.toNat ∧ c.toNat ≤ high) : isPrintable c = true := by
  rw [isPrintable, Bool.not_eq_true', List.any_eq_false]
  intro r hr
  have hr' := List.all_eq_true.mp hgap r hr
  simp only [Bool.or_eq_true, decide_eq_true_eq, Bool.and_eq_true] at hr' ⊢
  omega

theorem isPrintable_of_ascii (h : 0x20 ≤ c.toNat ∧ c.toNat ≤ 0x7E) : isPrintable c = true :=
  isPrintable_of_gap 0x20 0x7E (by decide +kernel) h

theorem isPrintable_of_mem {cs : List Char}
    (hcs : cs.all (fun ch ↦ 0x20 ≤ ch.toNat && ch.toNat ≤ 0x7E) = true) (h : c ∈ cs) :
    isPrintable c = true := by
  have hc := List.all_eq_true.mp hcs c h
  rw [Bool.and_eq_true, decide_eq_true_eq, decide_eq_true_eq] at hc
  exact isPrintable_of_ascii hc

theorem isPrintable_char (g : Glyph) : isPrintable g.char = true :=
  isPrintable_of_gap 0x2500 0x25FF (by decide +kernel) (by cases g <;> decide)

end Printable

/-- Whether a cell is a mark or a single character that can be printed. -/
def Cell.IsLegible : Cell → Prop
  | .glyph _ => True
  | .raw cs => ∃ ch, cs = [ch] ∧ Printable.isPrintable ch = true

/-- **A character that cannot be printed** is only in names. -/
theorem OnlyInNames.of_isPrintable_eq_false {c : Char} (h : Printable.isPrintable c = false) :
    OnlyInNames c := by
  have hne : Printable.isPrintable c ≠ true := Bool.eq_false_iff.mp h
  refine ⟨?_, fun hmem ↦ hne (Printable.isPrintable_of_mem (by decide) hmem), ?_⟩
  · rw [Char.isDigit, Bool.and_eq_false_iff, decide_eq_false_iff_not, decide_eq_false_iff_not,
      ge_iff_le, UInt32.le_iff_toNat_le, UInt32.le_iff_toNat_le]
    exact not_and_or.mp fun hc ↦ hne <| Printable.isPrintable_of_ascii
      ⟨le_trans (by decide) hc.1, le_trans hc.2 (by decide)⟩
  · rintro g rfl
    exact hne (Printable.isPrintable_char g)

/-! ## Rectangles of lines -/

/-- Whether a text consists of lines of one length, `height` of them. -/
def IsRectangle (height : Nat) (text : List Char) : Prop :=
  ∃ width lines, split ['\n'] text = lines ++ [[]] ∧ lines.length = height ∧
    ∀ line ∈ lines, line.length = width

theorem isRectangle_lineText {lines : List (List Char)} {width : Nat}
    (h : ∀ line ∈ lines, '\n' ∉ line ∧ line.length = width) :
    IsRectangle lines.length (lineText lines) :=
  ⟨width, lines, split_lineText fun line hline ↦ (h line hline).1, rfl,
    fun line hline ↦ (h line hline).2⟩

theorem not_isRectangle_lineText {lines : List (List Char)} {line : List Char}
    (hline : line ∈ lines) (hfeed : '\n' ∈ line) :
    ¬IsRectangle lines.length (lineText lines) := by
  rintro ⟨width, parts, hsplit, hlength, -⟩
  have hcount := length_split_newline (lineText lines)
  have hpos : 0 < lines.flatten.count '\n' :=
    List.count_pos_iff.mpr (List.mem_flatten.mpr ⟨line, hline, hfeed⟩)
  rw [hsplit, count_newline_lineText, List.length_append, hlength, List.length_singleton] at hcount
  omega

/-! ## Every column is on some page -/

theorem Canvas.exists_mem_lines {c : Canvas} {row col : Int} {x : Cell} {ch : Char}
    (hx : c.cell? row col = some x) (hch : ch ∈ x.chars) : ∃ l ∈ c.lines, ch ∈ l := by
  have hinside := Canvas.inside_of_cell? hx
  have hcell := c.getElem?_rows row.toNat col.toNat
  rw [Int.toNat_of_nonneg hinside.1.1, Int.toNat_of_nonneg hinside.2.1, hx] at hcell
  obtain ⟨cells, hcells, hx'⟩ := Option.bind_eq_some_iff.mp hcell
  exact ⟨Cell.render cells, List.mem_map_of_mem (List.mem_of_getElem? hcells),
    List.mem_flatMap.mpr ⟨x, List.mem_of_getElem? hx', hch⟩⟩

/-- **Every column is on some page**: what is in the rest of a row is in a line of a page to come,
and a page has a line for every row. -/
theorem Diagram.IsRegular.exists_mem_linesFrom {d : Diagram} (h : d.IsRegular) {l : List Char}
    (hl : l ∈ d.canvas.lines) {ch : Char} {stops : List Int} :
    ∀ {isFirst : Bool} {start : Int}, 0 ≤ start → Ascends d.canvas.width isFirst start stops →
      ch ∈ Position.slice l start d.canvas.width →
        ∃ lines ∈ d.linesFrom isFirst start stops, lines.length = d.canvas.height ∧
          ∃ line ∈ lines, ch ∈ line := by
  induction stops with
  | nil =>
    rintro isFirst start - rfl hch
    rw [Position.slice, List.drop_eq_nil_of_le (List.length_take_le _ _)] at hch
    exact absurd hch List.not_mem_nil
  | cons stop stops ih =>
    rintro isFirst start hstart ⟨hstop, hrest⟩ hch
    rw [← Position.slice_append hstart (by omega) hrest.start_le, List.mem_append] at hch
    rcases hch with hch | hch
    · obtain ⟨r, hr⟩ := List.getElem?_of_mem hl
      obtain ⟨margin, -, hline⟩ := h.getElem?_linesOf hr isFirst (!stops.isEmpty) start stop
      exact ⟨_, List.mem_cons_self, h.length_linesOf _ _ _ _, _, List.mem_of_getElem? hline,
        List.mem_append_left _ (List.mem_append_right _ hch)⟩
    · obtain ⟨lines, hlines, hmem⟩ := ih (by omega) hrest hch
      exact ⟨lines, List.mem_cons_of_mem _ hlines, hmem⟩

/-! ## The characters of names -/

theorem Label.mem_text_of_mem_name {ch : Char} {name : String} (h : ch ∈ name.toList)
    (params : List Float) : ch ∈ (Label.text name params).toList := by
  have hcall : ch ∈ (Label.call name (params.map Label.paramLayout.render)).toList := by
    unfold Label.call
    split
    · exact h
    · simp only [String.toList_append, List.mem_append]
      exact Or.inl (Or.inl (Or.inl h))
  rw [Label.text, Label.pad, String.toList_append, String.toList_append]
  exact List.mem_append_left _ (List.mem_append_right _ hcall)

theorem Canvas.ShowsBox.exists_cell? {c : Canvas} {op : Operator} {wires dots : List Int}
    {label : String} {left right start low high : Int}
    (h : c.ShowsBox op wires dots label left right start low high) {ch : Char}
    (hch : ch ∈ label.toList) : ∃ row col, c.cell? row col = some (.ofChar ch) := by
  obtain ⟨k, hk⟩ := List.getElem?_of_mem hch
  exact ⟨_, _, h.written k ch hk⟩

namespace Trace

variable {t : Trace} {c : Canvas}

theorem exists_placedAt {i : Instruction} (hi : i ∈ t.instructions) :
    ∃ left, i.operator.placedAt left ∈ t.placed := by
  rw [← t.map_snd_entries] at hi
  obtain ⟨e, he, rfl⟩ := List.mem_map.mp hi
  exact ⟨_, placedAt_mem_placed he⟩

section Draws

variable (hdraws : t.Draws c)

include hdraws

/-- **A character that is only in names is drawn** if it is in the name of some gate. A swap does
not show its name. -/
theorem exists_cell?_iff {ch : Char} (hch : OnlyInNames ch) (hswap : ch ∉ "swap".toList) :
    (∃ row col, c.cell? row col = some (.ofChar ch)) ↔
      ∃ i ∈ t.instructions, ch ∈ i.name.toList := by
  constructor
  · rintro ⟨row, col, hcell⟩
    by_contra hnames
    push Not at hnames
    exact lacks_of_draws hdraws hch hnames hcell List.mem_cons_self
  · rintro ⟨i, hi, hmem⟩
    obtain ⟨left, hop⟩ := exists_placedAt hi
    have hlabel : ch ∈ i.label.toList := Label.mem_text_of_mem_name hmem i.params
    cases hshape : i.shape with
    | plainBox label =>
      obtain rfl : label = i.label := Instruction.eq_label_of_mem (by rw [hshape]; rfl)
      exact (showsInnerBox hdraws hi hop hshape).exists_cell? hlabel
    | controlledBox label =>
      obtain rfl : label = i.label := Instruction.eq_label_of_mem (by rw [hshape]; rfl)
      exact (showsOuterBox hdraws hi hop hshape).exists_cell? hlabel
    | swap =>
      have hname : i.name = "swap" := by
        have hisSwap := Instruction.isSwap_of_shape hshape
        simp only [Instruction.isSwap, Bool.and_eq_true, beq_iff_eq] at hisSwap
        exact hisSwap.1.1
      exact absurd (hname ▸ hmem) hswap

theorem isLegible_iff : (∀ row col x, c.cell? row col = some x → x.IsLegible) ↔
    ∀ i ∈ t.instructions, ∀ ch ∈ i.name.toList, Printable.isPrintable ch = true := by
  constructor
  · intro h i hi ch hmem
    by_contra hprint
    rw [Bool.not_eq_true] at hprint
    have hswap : ch ∉ "swap".toList := fun hmem ↦ by
      rw [Printable.isPrintable_of_mem (by decide) hmem] at hprint
      contradiction
    obtain ⟨row, col, hcell⟩ := (exists_cell?_iff hdraws (.of_isPrintable_eq_false hprint)
      hswap).mpr ⟨i, hi, hmem⟩
    obtain ⟨ch', heq, hprint'⟩ := h row col _ hcell
    obtain rfl : ch = ch' := List.head_eq_of_cons_eq heq
    rw [hprint] at hprint'
    contradiction
  · intro h row col x hx
    cases x with
    | glyph g => trivial
    | raw cs =>
      obtain ⟨ch, rfl⟩ := List.length_eq_one_iff.mp (hdraws.allSingle row col _ hx)
      refine ⟨ch, rfl, ?_⟩
      by_contra hprint
      rw [Bool.not_eq_true] at hprint
      refine lacks_of_draws hdraws (.of_isPrintable_eq_false hprint) (fun i hi hmem ↦ ?_) hx
        List.mem_cons_self
      rw [h i hi ch hmem] at hprint
      contradiction

theorem exists_isRectangle_iff (hne : t.instructions ≠ []) (b : PageBudget) :
    ∃ pages, (t.diagram c).pages b = .ok pages ∧
      ((∀ page ∈ pages, IsRectangle (2 * t.wireCount + 1) page) ↔
        ∀ i ∈ t.instructions, '\n' ∉ i.name.toList) := by
  have h := isRegular_diagram hdraws
  have hascends := b.ascends_cuts h.widths_pos (t.diagram c).labelWidth
  rw [h.totalWidth_eq] at hascends
  refine ⟨_, h.pagesFrom_eq _ true 0, fun hpages i hi hmem ↦ ?_, fun hnames page hpage ↦ ?_⟩
  · obtain ⟨row, col, hcell⟩ := (exists_cell?_iff hdraws .newline (by decide)).mpr ⟨i, hi, hmem⟩
    obtain ⟨l, hl, hfeed⟩ := Canvas.exists_mem_lines hcell List.mem_cons_self
    have hl' : l ∈ (t.diagram c).canvas.lines := hl
    rw [← Position.slice_zero_length l, Canvas.length_of_mem_lines h.isSingle hl'] at hfeed
    obtain ⟨lines, hlines, hlength, line, hline, hfeed⟩ :=
      h.exists_mem_linesFrom hl' (Int.le_refl 0) hascends hfeed
    have hpage := hpages _ (List.mem_map_of_mem hlines)
    rw [← height_diagram hdraws, ← hlength] at hpage
    exact not_isRectangle_lineText hline hfeed hpage
  · obtain ⟨lines, hlines, rfl⟩ := List.mem_map.mp hpage
    obtain ⟨hpage, hlength, width, hwidth⟩ :=
      (isReadable_diagram hdraws hne hnames).isPage_of_mem_linesFrom (Int.le_refl 0) hascends lines
        hlines
    rw [← height_diagram hdraws, ← hlength]
    exact isRectangle_lineText fun line hline ↦ ⟨(hpage line hline).2, hwidth line hline⟩

end Draws

/-- **Diagrams are as legible as the names of gates.** A trace with instructions is laid out if
there is room for its canvas. Then its raw cells are single characters that can be printed if and
only if all characters of all names can be, and all pages are rectangles, with a line for each row
of the canvas, if and only if no name has a line feed. -/
theorem exists_legible_iff (hne : t.instructions ≠ []) :
    (t.HasCanvas ∧ ∃ d, Diagram.ofTrace t = .ok d ∧
      ((∀ row col x, d.canvas.cell? row col = some x → x.IsLegible) ↔
        ∀ i ∈ t.instructions, ∀ ch ∈ i.name.toList, Printable.isPrintable ch = true) ∧
      ∀ b : PageBudget, ∃ pages, d.pages b = .ok pages ∧
        ((∀ page ∈ pages, IsRectangle (2 * t.wireCount + 1) page) ↔
          ∀ i ∈ t.instructions, '\n' ∉ i.name.toList)) ∨
    (¬t.HasCanvas ∧ Diagram.ofTrace t = .error t.canvasRefusal) :=
  exists_ofTrace_or fun _ hdraws ↦ ⟨isLegible_iff hdraws, exists_isRectangle_iff hdraws hne⟩

/-- A tab in a name cannot be printed, but it breaks no line. -/
theorem exists_legible_iff_tab : ∃ d,
    Diagram.ofTrace (ofSingles 2 [("h", 0), ("a\tb", 1)]) = .ok d ∧
      (¬∀ row col x, d.canvas.cell? row col = some x → x.IsLegible) ∧
      ∀ b : PageBudget, ∃ pages, d.pages b = .ok pages ∧ ∀ page ∈ pages, IsRectangle 5 page := by
  have hcases := exists_legible_iff (t := .ofSingles 2 [("h", 0), ("a\tb", 1)])
    (List.cons_ne_nil _ _)
  obtain ⟨-, d, hd, hlegible, hpages⟩ := hcases.resolve_right fun h ↦
    h.1 (by decide +kernel)
  refine ⟨d, hd, fun h ↦ ?_, fun b ↦ ?_⟩
  · have htab := hlegible.mp h (.single "a\tb" 1) (List.mem_cons_of_mem _ List.mem_cons_self) '\t'
      (by decide)
    exact absurd htab (by decide)
  · obtain ⟨pages, heq, hiff⟩ := hpages b
    exact ⟨pages, heq, hiff.mpr (by decide)⟩

/-- A gate with a line feed in its name: the canvas has a cell that cannot be printed, and a page
has more lines than the canvas has rows. -/
theorem not_legible_line_feed : ∃ d,
    Diagram.ofTrace (ofSingles 1 [("a\nb", 0)]) = .ok d ∧
      (¬∀ row col x, d.canvas.cell? row col = some x → x.IsLegible) ∧
      ∃ pages, d.pages ⟨80, by decide⟩ = .ok pages ∧ ¬∀ page ∈ pages, IsRectangle 3 page := by
  obtain ⟨c, hdraws, hd⟩ := ofTrace_eq (t := .ofSingles 1 [("a\nb", 0)]) (by decide +kernel)
  obtain ⟨pages, hpages, hiff⟩ :=
    exists_isRectangle_iff hdraws (List.cons_ne_nil _ _) ⟨80, by decide⟩
  refine ⟨_, hd, fun h ↦ ?_, pages, hpages, fun h ↦ absurd (hiff.mp h) (by decide)⟩
  have hfeed := (isLegible_iff hdraws).mp h (.single "a\nb" 0) List.mem_cons_self '\n' (by decide)
  exact absurd hfeed (by decide)

end Trace

end WireDiagram
