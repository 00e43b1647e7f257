import WireDiagram.Proofs.Blocks
import WireDiagram.Proofs.Safety

/-!
# Texts keep to the budget

A line of the text of a trace is longer than the budget only where there was no choice: on a first
page that holds no layer, because of the labels alone, and on another page that holds a single layer
(`Trace.exists_fits`). So if labels and layers are below the budget, all lines are within it.

## Two columns to spare

A page that takes a layer keeps two columns of the budget free, while the mark of a page that goes
on takes only one. So a page that had a choice is never even as wide as the budget, and the cases
that are left are exact.
-/

namespace WireDiagram

open Split

/-! ## Lines of a text -/

/-- The lines of pages, with the lines between two pages. -/
def joinLines (columns : Nat) : List (List (List Char)) → List (List Char)
  | [] => []
  | [lines] => lines
  | lines :: pages => lines ++ [[], dashes columns, []] ++ joinLines columns pages

theorem joinLines_cons_cons (columns : Nat) (lines next : List (List Char))
    (pages : List (List (List Char))) : joinLines columns (lines :: next :: pages) =
      lines ++ [[], dashes columns, []] ++ joinLines columns (next :: pages) := rfl

theorem joinPages_lineText (columns : Nat) (pages : List (List (List Char))) :
    Diagram.joinPages columns (pages.map lineText) = lineText (joinLines columns pages) := by
  induction pages with
  | nil => rfl
  | cons lines pages ih => match pages, ih with
    | [], _ => rfl
    | next :: pages, ih =>
      have hbanner : banner columns = lineText [[], dashes columns, []] := by
        rw [banner_eq, lineText_cons, lineText_cons, lineText_cons]
        rfl
      show lineText lines ++ banner columns ++ Diagram.joinPages columns _ = _
      rw [ih, hbanner, joinLines_cons_cons, lineText, lineText, lineText, lineText,
        List.flatMap_append, List.flatMap_append]

/-- A line of a text of pages is a line of a page, unless it is a line of dashes or empty. -/
theorem mem_joinLines {columns : Nat} {line : List Char} {pages : List (List (List Char))}
    (h : line ∈ joinLines columns pages) :
    (∃ lines ∈ pages, line ∈ lines) ∨ line = dashes columns ∨ line = [] := by
  induction pages with
  | nil => exact absurd h List.not_mem_nil
  | cons lines pages ih => match pages, ih, h with
    | [], _, h => exact Or.inl ⟨lines, List.mem_cons_self, h⟩
    | next :: pages, ih, h =>
      rw [joinLines_cons_cons, List.mem_append, List.mem_append] at h
      rcases h with (h | h) | h
      · exact Or.inl ⟨lines, List.mem_cons_self, h⟩
      · simp only [List.mem_cons, List.not_mem_nil, or_false] at h
        rcases h with h | h | h
        · exact Or.inr (Or.inr h)
        · exact Or.inr (Or.inl h)
        · exact Or.inr (Or.inr h)
      · exact (ih h).imp_left fun ⟨lines', hmem, hline⟩ ↦
          ⟨lines', List.mem_cons_of_mem lines hmem, hline⟩

theorem newline_not_mem_joinLines {columns : Nat} {pages : List (List (List Char))}
    (h : ∀ lines ∈ pages, ∀ line ∈ lines, '\n' ∉ line) :
    ∀ line ∈ joinLines columns pages, '\n' ∉ line := by
  intro line hline
  rcases mem_joinLines hline with ⟨lines, hlines, hmem⟩ | rfl | rfl
  · exact h lines hlines line hmem
  · exact fun hfeed ↦ absurd (List.eq_of_mem_replicate hfeed) (by decide)
  · exact List.not_mem_nil

theorem exists_lines_of_lt {columns : Nat} {pages : List (List (List Char))}
    (h : ∀ lines ∈ pages, ∀ line ∈ lines, '\n' ∉ line) {line : List Char}
    (hline : line ∈ split ['\n'] (Diagram.joinPages columns (pages.map lineText)))
    (hlt : columns < line.length) : ∃ lines ∈ pages, line ∈ lines := by
  rw [joinPages_lineText, split_lineText (newline_not_mem_joinLines h), List.mem_append,
    List.mem_singleton] at hline
  have hne : line ≠ [] := by
    rintro rfl
    exact absurd hlt (Nat.not_lt_zero columns)
  rcases mem_joinLines (hline.resolve_right hne) with hmem | rfl | rfl
  · exact hmem
  · rw [dashes, List.length_replicate] at hlt
    exact absurd hlt (Nat.lt_irrefl columns)
  · exact absurd rfl hne

/-! ## Lengths of lines -/

/-- The number of columns of the lines of a page, the one at place `k` of `count`: labels on the
first page, its layers, and a mark on all pages but the last one. -/
def pageWidth (labelWidth count k : Nat) (block : List Int) : Int :=
  (if k = 0 then (labelWidth : Int) else 0) + totalWidth block + if k + 1 < count then 1 else 0

namespace Diagram.IsReadable

variable {d : Diagram}

/-- **The length of a line** is known from the layers on its page. -/
theorem length_of_mem_linesFrom (h : d.IsReadable) {blocks : List (List Int)} :
    ∀ {isFirst : Bool} {start : Int} {k : Nat} {lines : List (List Char)} {block : List Int},
      0 ≤ start → Ascends d.canvas.width isFirst start (blockEnds start blocks) →
      (d.linesFrom isFirst start (blockEnds start blocks))[k]? = some lines →
      blocks[k]? = some block → ∀ line ∈ lines, (line.length : Int) =
        pageWidth (if isFirst then d.labelWidth else 0) blocks.length k block := by
  induction blocks with
  | nil =>
    intro isFirst start k lines block _ _ _ hblock
    exact absurd hblock (by simp)
  | cons head blocks ih =>
    rintro isFirst start k lines block hstart ⟨hstop, hrest⟩ hlines hblock line hline
    have hle := hrest.start_le
    cases k with
    | zero =>
      obtain rfl : head = block := Option.some.inj hblock
      obtain rfl : d.linesOf isFirst (!(blockEnds (start + totalWidth head) blocks).isEmpty) start
        (start + totalWidth head) = lines := Option.some.inj hlines
      have hmore : (if !blocks.isEmpty then 1 else 0 : Int) =
          if 0 + 1 < (head :: blocks).length then 1 else 0 := by
        cases blocks <;> rfl
      rw [h.length_of_mem_linesOf hstart (by omega) hle hline, isEmpty_blockEnds, hmore, pageWidth,
        if_pos rfl, Int.add_comm start, Int.add_sub_cancel]
    | succ k =>
      rw [ih (by omega) hrest hlines hblock line hline, pageWidth, pageWidth]
      simp

theorem newline_not_mem_linesFrom (h : d.IsReadable) {stops : List Int} :
    ∀ {isFirst : Bool} {start : Int}, ∀ lines ∈ d.linesFrom isFirst start stops,
      ∀ line ∈ lines, '\n' ∉ line := by
  induction stops with
  | nil => exact fun lines hlines ↦ absurd hlines List.not_mem_nil
  | cons stop stops ih =>
    intro isFirst start lines hlines line hline
    rcases List.mem_cons.mp hlines with rfl | hlines
    · exact h.newline_not_mem_linesOf hline
    · exact ih lines hlines line hline

end Diagram.IsReadable

theorem Diagram.length_linesFrom (d : Diagram) (isFirst : Bool) (start : Int) (stops : List Int) :
    (d.linesFrom isFirst start stops).length = stops.length := by
  induction stops generalizing isFirst start with
  | nil => rfl
  | cons stop stops ih => rw [linesFrom, List.length_cons, List.length_cons, ih]

namespace PageBudget

/-- The pages that are wider than the budget: a first page without layers, where the labels leave no
column for the mark, and another page with a single layer that is too wide for itself, or for the
mark if the page goes on. The page is the one at place `k` of `count`. -/
def Overruns (b : PageBudget) (labelWidth count k : Nat) (block : List Int) : Prop :=
  k = 0 ∧ block = [] ∧ b.columns ≤ labelWidth ∨
    0 < k ∧ ∃ width, block = [width] ∧
      (k + 1 < count ∧ (b.columns : Int) ≤ width ∨ k + 1 = count ∧ (b.columns : Int) < width)

/-- **Which pages are wider than the budget.** -/
theorem IsDivision.overruns_iff {b : PageBudget} {widths : List Int} {labelWidth : Nat}
    {first : List Int} {rest : List (List Int)} (h : b.IsDivision widths labelWidth first rest)
    (hne : widths ≠ []) {k : Nat} {block : List Int} (hblock : (first :: rest)[k]? = some block) :
    (b.columns : Int) < pageWidth labelWidth (first :: rest).length k block ↔
      b.Overruns labelWidth (first :: rest).length k block := by
  cases k with
  | zero =>
    obtain rfl : first = block := Option.some.inj hblock
    rw [pageWidth, if_pos rfl]
    rcases h.first_fits with rfl | hfits
    · -- Some page holds the layers, so a first page without layers goes on.
      have hmore : 0 + 1 < ([] :: rest : List (List Int)).length := by
        have hrest : rest ≠ [] := fun hnil ↦ hne (by rw [← h.append_flatten, hnil]; rfl)
        have := List.length_pos_iff.mpr hrest
        rw [List.length_cons]
        omega
      rw [if_pos hmore, totalWidth_nil]
      constructor
      · exact fun hlt ↦ Or.inl ⟨rfl, rfl, by omega⟩
      · rintro (⟨-, -, hle⟩ | ⟨hpos, -⟩) <;> omega
    · constructor
      · intro hlt
        split at hlt <;> omega
      · rintro (⟨-, rfl, hle⟩ | ⟨hpos, -⟩)
        · rw [totalWidth_nil] at hfits
          omega
        · omega
  | succ k =>
    have hmem : block ∈ rest := List.mem_of_getElem? hblock
    rw [pageWidth, if_neg (Nat.succ_ne_zero k)]
    have hk := (List.getElem?_eq_some_iff.mp hblock).1
    rcases h.rest_fits block hmem with ⟨width, rfl⟩ | ⟨-, hfits⟩
    · rw [totalWidth_singleton]
      constructor
      · intro hlt
        refine Or.inr ⟨Nat.succ_pos k, width, rfl, ?_⟩
        split at hlt <;> omega
      · rintro (⟨hzero, -⟩ | ⟨-, width', heq, hlt⟩)
        · omega
        · obtain rfl : width = width' := List.head_eq_of_cons_eq heq
          split <;> omega
    · constructor
      · intro hlt
        split at hlt <;> omega
      · rintro (⟨hzero, -⟩ | ⟨-, width', rfl, hlt⟩)
        · omega
        · rw [totalWidth_singleton] at hfits
          omega

end PageBudget

/-! ## The pages of a diagram -/

namespace Diagram

/-- The lines of the pages that hold blocks of layers. -/
def pageLinesOf (d : Diagram) (blocks : List (List Int)) : List (List (List Char)) :=
  d.linesFrom true 0 (blockEnds 0 blocks)

theorem length_pageLinesOf (d : Diagram) (blocks : List (List Int)) :
    (d.pageLinesOf blocks).length = blocks.length := by
  rw [pageLinesOf, length_linesFrom, length_blockEnds]

namespace IsReadable

variable {d : Diagram} {b : PageBudget} {first : List Int} {rest : List (List Int)}
  (h : d.IsReadable) (hwidths : d.layerWidths ≠ [])
  (hdiv : b.IsDivision d.layerWidths d.labelWidth first rest)
  (hcuts : b.cuts d.layerWidths d.labelWidth = blockEnds 0 (first :: rest))

include h hwidths hdiv hcuts

theorem pageLines_lt_iff (k : Nat) (page : List Char) (block : List Int)
    (hpage : ((d.pageLinesOf (first :: rest)).map lineText)[k]? = some page)
    (hblock : (first :: rest)[k]? = some block) (line : List Char) (hline : line ∈ pageLines page) :
    b.columns < line.length ↔ b.Overruns d.labelWidth (first :: rest).length k block := by
  have hascends : Ascends d.canvas.width true 0 (blockEnds 0 (first :: rest)) := by
    rw [← h.totalWidth_eq, ← hcuts]
    exact b.ascends_cuts h.widths_pos d.labelWidth
  obtain ⟨lines, hlines, rfl⟩ := Option.map_eq_some_iff.mp (List.getElem?_map ▸ hpage)
  rw [pageLines_lineText (h.newline_not_mem_linesFrom lines (List.mem_of_getElem? hlines))] at hline
  have hlength := h.length_of_mem_linesFrom (Int.le_refl 0) hascends hlines hblock line hline
  rw [← hdiv.overruns_iff hwidths hblock, ← Int.ofNat_lt, hlength]
  rfl

theorem exists_page (line : List Char)
    (hline : line ∈ split ['\n']
      (joinPages b.columns ((d.pageLinesOf (first :: rest)).map lineText)))
    (hlt : b.columns < line.length) :
    ∃ k page block, ((d.pageLinesOf (first :: rest)).map lineText)[k]? = some page ∧
      (first :: rest)[k]? = some block ∧ line ∈ pageLines page ∧
        b.Overruns d.labelWidth (first :: rest).length k block := by
  have hfeed : ∀ lines ∈ d.pageLinesOf (first :: rest), ∀ line ∈ lines, '\n' ∉ line :=
    h.newline_not_mem_linesFrom
  obtain ⟨lines, hlines, hmem⟩ := exists_lines_of_lt hfeed hline hlt
  obtain ⟨k, hk⟩ := List.getElem?_of_mem hlines
  have hk' : k < (first :: rest).length := by
    rw [← d.length_pageLinesOf]
    exact (List.getElem?_eq_some_iff.mp hk).1
  have hpage : ((d.pageLinesOf (first :: rest)).map lineText)[k]? = some (lineText lines) := by
    rw [List.getElem?_map, hk]
    rfl
  have hblock : (first :: rest)[k]? = some (first :: rest)[k] := List.getElem?_eq_getElem hk'
  have hmem' : line ∈ pageLines (lineText lines) := by
    rwa [pageLines_lineText (hfeed lines hlines)]
  exact ⟨k, _, _, hpage, hblock, hmem',
    (h.pageLines_lt_iff hwidths hdiv hcuts k _ _ hpage hblock line hmem').mp hlt⟩

end IsReadable

end Diagram

/-! ## The text of a trace -/

namespace Trace

variable {t : Trace}

/-- What the lines of a text and the layers on its pages say of each other: `blocks` are the widths
of the layers, page by page. -/
structure Fits (t : Trace) (b : PageBudget) (d : Diagram) (pages : List (List Char))
    (blocks : List (List Int)) (text : String) : Prop where
  /-- The diagram is that of the trace. -/
  diagram_eq : Diagram.ofTrace t = .ok d
  /-- The text is that of the trace. -/
  text_eq : t.draw (.int b.columns) = .ok text
  /-- The pages are those of the diagram. -/
  pages_eq : d.pages b = .ok pages
  /-- The text is that of the pages. -/
  toList_eq : text.toList = Diagram.joinPages b.columns pages
  /-- The layers are those on the pages, in order. -/
  flatten_blocks : blocks.flatten = d.layerWidths
  /-- Pages end where their layers end. -/
  cuts_eq : b.cuts d.layerWidths d.labelWidth = blockEnds 0 blocks
  /-- Every page has its layers. -/
  length_pages : pages.length = blocks.length
  /-- The lines of a page are longer than the budget if and only if the page had no choice. -/
  pageLines_lt_iff : ∀ k page block, pages[k]? = some page → blocks[k]? = some block →
    ∀ line ∈ pageLines page,
      (b.columns < line.length ↔ b.Overruns d.labelWidth blocks.length k block)
  /-- Every line of the text that is longer than the budget is on such a page. -/
  exists_page : ∀ line ∈ split ['\n'] text.toList, b.columns < line.length →
    ∃ k page block, pages[k]? = some page ∧ blocks[k]? = some block ∧ line ∈ pageLines page ∧
      b.Overruns d.labelWidth blocks.length k block
  /-- If the labels and all layers are below the budget, all lines are within it. -/
  length_le : (∀ width ∈ d.layerWidths, width ≤ (b.columns : Int) - 1) →
    d.labelWidth ≤ b.columns - 1 → ∀ line ∈ split ['\n'] text.toList, line.length ≤ b.columns

theorem layerWidths_ne_nil (hne : t.instructions ≠ []) (c : Canvas) :
    (t.diagram c).layerWidths ≠ [] := by
  have hslots : t.slots ≠ [] := by
    rw [← List.length_pos_iff, length_slots]
    exact List.length_pos_iff.mpr hne
  obtain ⟨s, hs⟩ := List.exists_mem_of_ne_nil _ hslots
  have hlayer : Slot.layer t.slots s.level ∈ Slot.layers t.slots :=
    List.mem_map_of_mem (List.mem_range.mpr (Slot.level_lt_height hs))
  exact List.ne_nil_of_mem (List.mem_map_of_mem hlayer)

theorem exists_fits_of_hasRoom (hne : t.instructions ≠ [])
    (hnames : ∀ i ∈ t.instructions, '\n' ∉ i.name.toList) {b : PageBudget}
    (hroom : t.HasRoom b) : ∃ d pages blocks text, t.Fits b d pages blocks text := by
  obtain ⟨hcanvas, hcolumns⟩ := hroom.resolve_left hne
  obtain ⟨c, hdraws, hd⟩ := ofTrace_eq hcanvas
  have h := isReadable_diagram hdraws hne hnames
  have hwidths := layerWidths_ne_nil hne c
  generalize t.diagram c = d at hd h hwidths
  obtain ⟨first, rest, hblocks, hdiv⟩ := b.exists_isDivision d.layerWidths d.labelWidth
  have hcuts : b.cuts d.layerWidths d.labelWidth = blockEnds 0 (first :: rest) := by
    rw [b.cuts_eq, hblocks]
  have hpages : d.pages b = .ok ((d.pageLinesOf (first :: rest)).map lineText) := by
    rw [Diagram.pages, hcuts, h.isRegular.pagesFrom_eq, Diagram.pageLinesOf]
  have hiff := h.pageLines_lt_iff hwidths hdiv hcuts
  have hexists := h.exists_page hwidths hdiv hcuts
  refine ⟨d, _, first :: rest, String.ofList (Diagram.joinPages b.columns
    ((d.pageLinesOf (first :: rest)).map lineText)), hd, draw_of_pages hne hd hpages hcolumns,
    hpages, String.toList_ofList, hdiv.append_flatten, hcuts, ?_, hiff, ?_, ?_⟩
  · rw [List.length_map, Diagram.length_pageLinesOf]
  · rw [String.toList_ofList]
    exact hexists
  · rw [String.toList_ofList]
    intro hlayers hlabels line hline
    by_contra hlt
    obtain ⟨k, page, block, -, hblock, -, hoverruns⟩ := hexists line hline (by omega)
    rcases hoverruns with ⟨-, -, hle⟩ | ⟨-, width, rfl, hwidth⟩
    · have := b.columns_pos
      omega
    · have hmem : width ∈ d.layerWidths := by
        rw [← hdiv.append_flatten]
        exact List.mem_flatten.mpr ⟨_, List.mem_of_getElem? hblock, List.mem_cons_self⟩
      have := hlayers width hmem
      omega

/-- **The text of a trace keeps to the budget** wherever its layers allow it. There is a text if
and only if there is room for it; otherwise it is refused. -/
theorem exists_fits (hne : t.instructions ≠ [])
    (hnames : ∀ i ∈ t.instructions, '\n' ∉ i.name.toList) (b : PageBudget) :
    (t.HasRoom b ∧ ∃ d pages blocks text, t.Fits b d pages blocks text) ∨
      (¬t.HasRoom b ∧ t.draw (.int b.columns) = .error (t.textRefusal b)) :=
  or_draw_eq_error (exists_fits_of_hasRoom hne hnames)

/-- Gates of which the second one is wider than its page. -/
theorem exists_fits_wide_gate : ∃ d pages blocks text,
    (ofSingles 1 [("h", 0), ("measure", 0), ("h", 0)]).Fits ⟨8, by decide⟩ d pages blocks text := by
  have hroom : (ofSingles 1 [("h", 0), ("measure", 0), ("h", 0)]).HasRoom ⟨8, by decide⟩ :=
    Or.inr ⟨by decide +kernel, by decide⟩
  have hfits := exists_fits (t := .ofSingles 1 [("h", 0), ("measure", 0), ("h", 0)])
    (List.cons_ne_nil _ _) (by decide) ⟨8, by decide⟩
  exact (hfits.resolve_right fun h ↦ h.1 hroom).2

end Trace

end WireDiagram
