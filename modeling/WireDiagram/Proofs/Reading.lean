import WireDiagram.Proofs.Cutting
import WireDiagram.Proofs.Ink
import WireDiagram.Proofs.Splitting

/-!
# Reading a text diagram

A text can be read back: split at the lines between pages it gives the pages, and the lines of the
pages, without labels and marks, give the rows of the canvas (`Trace.isDecodable_iff`).

Gates may have dashes, marks and anything else in their names, but no line feed. The pages are found
again for three reasons, all of them about rows of pages (`Diagram.IsRegular.getElem?_linesOf`): no
row is empty, no row holds a line feed, and a row of a page that goes on holds the mark, so that it
is no row of dashes.
-/

namespace WireDiagram

open Split

/-! ## Reading -/

/-- The lines of a page. -/
def pageLines (page : List Char) : List (List Char) :=
  (split ['\n'] page).dropLast

/-- A line of a page. -/
def pageLine (r : Nat) (page : List Char) : List Char :=
  (pageLines page)[r]?.getD []

/-- What a line says on all pages: without the first `skip` characters of the first page, and
without the last character of any page that goes on. -/
def decodeRow (skip r : Nat) : List (List Char) → List Char
  | [] => []
  | [page] => (pageLine r page).drop skip
  | page :: pages => ((pageLine r page).drop skip).dropLast ++ decodeRow 0 r pages

theorem pageLines_lineText {lines : List (List Char)} (h : ∀ l ∈ lines, '\n' ∉ l) :
    pageLines (lineText lines) = lines := by
  rw [pageLines, split_lineText h, List.dropLast_concat]

/-! ## Rows of a canvas -/

namespace Canvas

/-- The characters of the rows of a canvas. -/
def lines (c : Canvas) : List (List Char) :=
  c.rows.map Cell.render

theorem length_lines (c : Canvas) : c.lines.length = c.height := by
  rw [lines, List.length_map]
  exact Grid.length_toLists c.grid

theorem getElem?_rows (c : Canvas) (r k : Nat) :
    (c.rows[r]?.bind fun cells ↦ cells[k]?) = c.cell? r k := by
  by_cases h : c.Inside r k
  · have hrow := h.row_lt
    have hcol := h.col_lt
    rw [Int.toNat_natCast] at hrow hcol
    simp [rows, Grid.toLists, cell?, Grid.cell?, h, hrow, hcol]
  · rw [cell?, Grid.cell?_of_not_inside h, Option.bind_eq_none_iff]
    intro cells hcells
    have hrow := (List.getElem?_eq_some_iff.mp hcells).1
    have hcol := Grid.length_of_mem_toLists (List.mem_of_getElem? hcells)
    rw [rows, Grid.length_toLists] at hrow
    refine List.getElem?_eq_none ?_
    rw [hcol]
    by_contra hlt
    exact h ⟨by omega, by omega⟩

theorem map_some_rows (c : Canvas) : c.rows.map (List.map some) =
    (List.range c.height).map fun r : Nat ↦ (List.range c.width).map fun k : Nat ↦
      c.cell? r k := by
  have hheight : c.rows.length = c.height := Grid.length_toLists c.grid
  refine List.ext_getElem ?_ fun r hr hr' ↦ List.ext_getElem ?_ fun k hk hk' ↦ ?_
  · rw [List.length_map, List.length_map, List.length_range, hheight]
  · rw [List.length_map] at hr
    have hlength : c.rows[r].length = c.width := Grid.length_of_mem_toLists (List.getElem_mem hr)
    simp only [List.getElem_map, List.length_map, List.length_range, hlength]
  · simp only [List.length_map, List.getElem_map, List.getElem_range] at hr hk ⊢
    rw [← getElem?_rows, List.getElem?_eq_getElem hr, Option.bind_some,
      List.getElem?_eq_getElem hk]

/-- A whole row, looked up by its number. -/
theorem showRow_of_getElem? {c : Canvas} {r : Nat} {l : List Char} (hl : c.lines[r]? = some l) :
    c.showRow r 0 none = .ok l := by
  obtain ⟨cells, hcells, rfl⟩ := Option.map_eq_some_iff.mp (List.getElem?_map ▸ hl)
  have hlt : r < c.rows.length := (List.getElem?_eq_some_iff.mp hcells).1
  have hget : c.rows[r] = cells := (List.getElem?_eq_some_iff.mp hcells).2
  have hlength : cells.length = c.width := Grid.length_of_mem_toLists (List.mem_of_getElem? hcells)
  rw [showRow, row, Position.get?_natCast hlt, hget]
  show Except.ok (c.showSlice 0 none cells) = _
  rw [showSlice, Option.getD_none, ← hlength, Position.slice_zero_length]

end Canvas

/-- The character that shows a single cell. -/
def Cell.shown (x : Cell) : Char :=
  x.chars.headD ' '

theorem Cell.render_eq_map {cells : List Cell} (h : ∀ x ∈ cells, x.IsSingle) :
    Cell.render cells = cells.map Cell.shown := by
  induction cells with
  | nil => rfl
  | cons x cells ih =>
    obtain ⟨ch, hch⟩ := List.length_eq_one_iff.mp (Cell.isSingle_iff.mp (h x List.mem_cons_self))
    have hrest := ih fun y hy ↦ h y (List.mem_cons_of_mem x hy)
    rw [Cell.render, List.flatMap_cons, ← Cell.render, hrest, List.map_cons, Cell.shown, hch]
    rfl

theorem Canvas.length_of_mem_lines {c : Canvas}
    (h : ∀ cells ∈ c.rows, ∀ x ∈ cells, x.IsSingle) {l : List Char} (hl : l ∈ c.lines) :
    l.length = c.width := by
  obtain ⟨cells, hcells, rfl⟩ := List.mem_map.mp hl
  rw [Cell.render_eq_map (h cells hcells), List.length_map, Grid.length_of_mem_toLists hcells]

theorem Cell.render_slice {cells : List Cell} (h : ∀ x ∈ cells, x.IsSingle) (start stop : Int) :
    Cell.render (Position.slice cells start stop) =
      Position.slice (Cell.render cells) start stop := by
  rw [Cell.render_eq_map h, Cell.render_eq_map fun x hx ↦ h x (Position.mem_of_mem_slice hx),
    Position.slice_map]

/-! ## Readable diagrams -/

/-- Whether the pages of a diagram are slices of its rows, with a label before each row. -/
structure Diagram.IsRegular (d : Diagram) : Prop where
  /-- Every cell shows one character. -/
  isSingle : ∀ cells ∈ d.canvas.rows, ∀ x ∈ cells, x.IsSingle
  /-- There is a label for every row. -/
  length_labels : d.rowLabels.length = d.canvas.height
  /-- Every layer has columns. -/
  widths_pos : ∀ w ∈ d.layerWidths, 0 < w
  /-- The layers have the columns of the canvas. -/
  totalWidth_eq : totalWidth d.layerWidths = d.canvas.width

/-- What makes a diagram readable. -/
structure Diagram.IsReadable (d : Diagram) : Prop where
  /-- Every cell shows one character. -/
  isSingle : ∀ cells ∈ d.canvas.rows, ∀ x ∈ cells, x.IsSingle
  /-- No cell shows a line feed. -/
  isLineFree : ∀ cells ∈ d.canvas.rows, ∀ x ∈ cells, x.IsLineFree
  /-- There is a label for every row. -/
  length_labels : d.rowLabels.length = d.canvas.height
  /-- No label holds a line feed. -/
  labels_lineFree : ∀ label ∈ d.rowLabels, '\n' ∉ label.toList
  /-- The labels have columns. -/
  labelWidth_pos : 0 < d.labelWidth
  /-- Every layer has columns. -/
  widths_pos : ∀ w ∈ d.layerWidths, 0 < w
  /-- The layers have the columns of the canvas. -/
  totalWidth_eq : totalWidth d.layerWidths = d.canvas.width

namespace Diagram

/-- The lines of the page from column `start` to column `stop`. -/
def linesOf (d : Diagram) (isFirst goesOn : Bool) (start stop : Int) : List (List Char) :=
  (if isFirst then List.zipWith (· ++ ·) (d.rowLabels.map (padLeft d.labelWidth))
      (d.pageRows start stop)
    else d.pageRows start stop).map (· ++ if goesOn then [continuationMark] else [])

/-- The lines of the pages that end at the given columns. -/
def linesFrom (d : Diagram) (isFirst : Bool) (start : Int) : List Int → List (List (List Char))
  | [] => []
  | stop :: stops =>
    d.linesOf isFirst (!stops.isEmpty) start stop :: d.linesFrom false stop stops

/-- Whether a text stands before a row of a page: a label on the first page, and nothing on any
other. -/
def IsMargin (d : Diagram) (isFirst : Bool) (margin : List Char) : Prop :=
  if isFirst then ∃ label ∈ d.rowLabels, margin = padLeft d.labelWidth label else margin = []

section Margin

variable {d : Diagram} {isFirst : Bool}

theorem length_le_labelWidth {label : String} (hlabel : label ∈ d.rowLabels) :
    label.length ≤ d.labelWidth := by
  have hmem : label.length ∈ d.rowLabels.map String.length := List.mem_map_of_mem hlabel
  rw [labelWidth]
  exact (max?_getD_mem (List.ne_nil_of_mem hmem)).2 _ hmem

/-- What stands before a row of the first page has the length of the longest label. -/
theorem IsMargin.length_eq {margin : List Char} (h : d.IsMargin isFirst margin) :
    margin.length = if isFirst then d.labelWidth else 0 := by
  cases isFirst with
  | false =>
    obtain rfl : margin = [] := h
    rfl
  | true =>
    obtain ⟨label, hlabel, rfl⟩ := h
    have hle := length_le_labelWidth hlabel
    rw [padLeft, List.length_append, List.length_replicate, String.length_toList, if_pos rfl]
    omega

theorem IsMargin.not_mem {margin : List Char} (h : d.IsMargin isFirst margin) {c : Char}
    (hblank : c ≠ ' ') (hlabels : ∀ label ∈ d.rowLabels, c ∉ label.toList) : c ∉ margin := by
  cases isFirst with
  | false =>
    obtain rfl : margin = [] := h
    exact List.not_mem_nil
  | true =>
    obtain ⟨label, hlabel, rfl⟩ := h
    rw [padLeft, List.mem_append, not_or]
    exact ⟨fun hmem ↦ hblank (List.eq_of_mem_replicate hmem), hlabels label hlabel⟩

end Margin

namespace IsRegular

variable {d : Diagram} (h : d.IsRegular) {isFirst goesOn : Bool} {start stop : Int}

include h

theorem prefixes_eq : d.prefixes = .ok (d.rowLabels.map (padLeft d.labelWidth)) :=
  if_neg (by rw [h.length_labels]; omega)

theorem page_eq (isFirst goesOn : Bool) (start stop : Int) :
    d.page isFirst goesOn start stop = .ok (lineText (d.linesOf isFirst goesOn start stop)) := by
  have htext : ∀ rows : List (List Char), rows.flatMap (endRow goesOn) =
      lineText (rows.map (· ++ if goesOn then [continuationMark] else [])) := by
    intro rows
    rw [lineText, List.flatMap_map]
    rfl
  rw [page, h.prefixes_eq, linesOf, ← htext]
  cases isFirst <;> rfl

theorem pagesFrom_eq (stops : List Int) : ∀ (isFirst : Bool) (start : Int),
    d.pagesFrom isFirst start stops = .ok ((d.linesFrom isFirst start stops).map lineText) := by
  induction stops with
  | nil =>
    intro isFirst start
    rfl
  | cons stop stops ih =>
    intro isFirst start
    rw [pagesFrom, h.page_eq, ih]
    rfl

theorem eq_of_pages_eq {b : PageBudget} {pages : List (List Char)}
    (hpages : d.pages b = .ok pages) :
    pages = (d.linesFrom true 0 (b.cuts d.layerWidths d.labelWidth)).map lineText := by
  rw [Diagram.pages, h.pagesFrom_eq] at hpages
  exact (Except.ok.inj hpages).symm

theorem pageRows_eq (start stop : Int) :
    d.pageRows start stop = d.canvas.lines.map fun l ↦ Position.slice l start stop := by
  rw [pageRows, Canvas.showRows, Canvas.lines, List.map_map]
  exact List.map_congr_left fun cells hcells ↦
    Cell.render_slice (h.isSingle cells hcells) start stop

/-- **A line of a page** is a label if the page is the first one, then a slice of the row, then the
mark if the page goes on. -/
theorem getElem?_linesOf {r : Nat} {l : List Char} (hl : d.canvas.lines[r]? = some l)
    (isFirst goesOn : Bool) (start stop : Int) :
    ∃ margin, d.IsMargin isFirst margin ∧
      (d.linesOf isFirst goesOn start stop)[r]? = some (margin ++ Position.slice l start stop ++
        if goesOn then [continuationMark] else []) := by
  have hrow : (d.pageRows start stop)[r]? = some (Position.slice l start stop) := by
    rw [h.pageRows_eq, List.getElem?_map, hl]
    rfl
  cases isFirst with
  | false =>
    refine ⟨[], rfl, ?_⟩
    rw [linesOf, if_neg Bool.false_ne_true, List.getElem?_map, hrow]
    rfl
  | true =>
    have hlt : r < d.rowLabels.length := by
      rw [h.length_labels, ← d.canvas.length_lines]
      exact (List.getElem?_eq_some_iff.mp hl).1
    refine ⟨_, ⟨d.rowLabels[r], List.getElem_mem hlt, rfl⟩, ?_⟩
    rw [linesOf, if_pos rfl, List.getElem?_map, List.getElem?_zipWith, List.getElem?_map,
      List.getElem?_eq_getElem hlt, hrow]
    rfl

theorem length_linesOf (isFirst goesOn : Bool) (start stop : Int) :
    (d.linesOf isFirst goesOn start stop).length = d.canvas.height := by
  have hrows : (d.pageRows start stop).length = d.canvas.height := by
    rw [h.pageRows_eq, List.length_map, Canvas.length_lines]
  rw [linesOf, List.length_map]
  split
  · rw [List.length_zipWith, List.length_map, h.length_labels, hrows, Nat.min_self]
  · exact hrows

theorem exists_of_mem_linesOf {line : List Char}
    (hline : line ∈ d.linesOf isFirst goesOn start stop) :
    ∃ margin l, d.IsMargin isFirst margin ∧ l ∈ d.canvas.lines ∧
      line = margin ++ Position.slice l start stop ++
        if goesOn then [continuationMark] else [] := by
  obtain ⟨r, hr⟩ := List.getElem?_of_mem hline
  have hlt : r < d.canvas.lines.length := by
    rw [Canvas.length_lines, ← h.length_linesOf isFirst goesOn start stop]
    exact (List.getElem?_eq_some_iff.mp hr).1
  have hl : d.canvas.lines[r]? = some d.canvas.lines[r] := List.getElem?_eq_getElem hlt
  obtain ⟨margin, hmargin, hline'⟩ := h.getElem?_linesOf hl isFirst goesOn start stop
  rw [hr, Option.some.injEq] at hline'
  exact ⟨margin, _, hmargin, List.getElem_mem hlt, hline'⟩

end IsRegular

namespace IsReadable

variable {d : Diagram} (h : d.IsReadable) {isFirst goesOn : Bool} {start stop : Int}

theorem isRegular (h : d.IsReadable) : d.IsRegular :=
  ⟨h.isSingle, h.length_labels, h.widths_pos, h.totalWidth_eq⟩

include h

theorem newline_not_mem_lines {l : List Char} (hl : l ∈ d.canvas.lines) : '\n' ∉ l := by
  intro hfeed
  obtain ⟨cells, hcells, rfl⟩ := List.mem_map.mp hl
  obtain ⟨x, hx, hfeed⟩ := List.mem_flatMap.mp hfeed
  exact h.isLineFree cells hcells x hx hfeed

theorem newline_not_mem_linesOf {line : List Char}
    (hline : line ∈ d.linesOf isFirst goesOn start stop) : '\n' ∉ line := by
  obtain ⟨margin, l, hmargin, hl, rfl⟩ := h.isRegular.exists_of_mem_linesOf hline
  rw [List.mem_append, List.mem_append, not_or, not_or]
  refine ⟨⟨hmargin.not_mem (by decide) h.labels_lineFree, fun hfeed ↦ ?_⟩, ?_⟩
  · exact h.newline_not_mem_lines hl (Position.mem_of_mem_slice hfeed)
  · split <;> decide

theorem length_of_mem_linesOf (hstart : 0 ≤ start) (hle : start ≤ stop)
    (hstop : stop ≤ d.canvas.width) {line : List Char}
    (hline : line ∈ d.linesOf isFirst goesOn start stop) : (line.length : Int) =
      (if isFirst then d.labelWidth else 0 : Nat) + (stop - start) + if goesOn then 1 else 0 := by
  obtain ⟨margin, l, hmargin, hl, rfl⟩ := h.isRegular.exists_of_mem_linesOf hline
  have hlength := Canvas.length_of_mem_lines h.isSingle hl
  have hslice : ((Position.slice l start stop).length : Int) = stop - start :=
    Position.length_slice hstart hle (by omega)
  rw [List.length_append, List.length_append, hmargin.length_eq]
  cases goesOn <;> simp <;> omega

theorem isPage_linesOf (hstart : 0 ≤ start) (hle : start < stop ∨ isFirst = true ∧ start = stop)
    (hstop : stop ≤ d.canvas.width) : IsPage (d.linesOf isFirst goesOn start stop) := by
  intro line hline
  refine ⟨fun hnil ↦ ?_, h.newline_not_mem_linesOf hline⟩
  have hlength := h.length_of_mem_linesOf hstart (by omega) hstop hline
  have hpos := h.labelWidth_pos
  rw [hnil, List.length_nil] at hlength
  -- A page without columns is the first one, and its lines have labels.
  rcases hle with hlt | ⟨rfl, rfl⟩
  · split at hlength <;> split at hlength <;> omega
  · rw [if_pos rfl] at hlength
    split at hlength <;> omega

/-- A line of a page that goes on is no line of dashes. -/
theorem ne_dashes_of_mem_linesOf {line : List Char}
    (hline : line ∈ d.linesOf isFirst true start stop) (columns : Nat) : line ≠ dashes columns := by
  rintro rfl
  obtain ⟨margin, l, -, -, heq⟩ := h.isRegular.exists_of_mem_linesOf hline
  have hmark : continuationMark ∈ dashes columns := by
    rw [heq]
    exact List.mem_append_right _ (List.mem_singleton.mpr rfl)
  exact absurd (List.eq_of_mem_replicate hmark) (by decide)

/-! ### All pages -/

theorem isPage_of_mem_linesFrom {stops : List Int} : ∀ {isFirst : Bool} {start : Int}, 0 ≤ start →
    Ascends d.canvas.width isFirst start stops →
      ∀ lines ∈ d.linesFrom isFirst start stops, IsPage lines ∧ lines.length = d.canvas.height ∧
        ∃ width, ∀ line ∈ lines, line.length = width := by
  induction stops with
  | nil =>
    intro isFirst start _ _ lines hlines
    exact absurd hlines List.not_mem_nil
  | cons stop stops ih =>
    rintro isFirst start hstart ⟨hstop, hrest⟩ lines hlines
    have hle := hrest.start_le
    rcases List.mem_cons.mp hlines with rfl | hlines
    · refine ⟨h.isPage_linesOf hstart hstop hle, h.isRegular.length_linesOf _ _ _ _, ?_⟩
      refine ⟨((if isFirst then d.labelWidth else 0 : Nat) + (stop - start) +
        if !stops.isEmpty then 1 else 0 : Int).toNat, fun line hline ↦ ?_⟩
      rw [← h.length_of_mem_linesOf hstart (by omega) hle hline]
      exact (Int.toNat_natCast _).symm
    · exact ih (by omega) hrest lines hlines

theorem ne_dashes_of_mem_dropLast (columns : Nat) {stops : List Int} :
    ∀ (isFirst : Bool) (start : Int), ∀ lines ∈ (d.linesFrom isFirst start stops).dropLast,
      lines.getLast? ≠ some (dashes columns) := by
  induction stops with
  | nil =>
    intro isFirst start lines hlines
    exact absurd hlines List.not_mem_nil
  | cons stop stops ih =>
    intro isFirst start lines hlines
    match stops, ih, hlines with
    | [], _, hlines => exact absurd hlines List.not_mem_nil
    | next :: stops, ih, hlines =>
      rcases List.mem_cons.mp hlines with rfl | hlines
      · intro hlast
        exact h.ne_dashes_of_mem_linesOf (List.mem_of_getLast? hlast) columns rfl
      · exact ih _ _ lines hlines

theorem pageLine_linesOf {r : Nat} {l : List Char} (hl : d.canvas.lines[r]? = some l)
    (isFirst goesOn : Bool) (start stop : Int) :
    (pageLine r (lineText (d.linesOf isFirst goesOn start stop))).drop
        (if isFirst then d.labelWidth else 0) =
      Position.slice l start stop ++ if goesOn then [continuationMark] else [] := by
  obtain ⟨margin, hmargin, hline⟩ := h.isRegular.getElem?_linesOf hl isFirst goesOn start stop
  rw [pageLine, pageLines_lineText fun line hline ↦ h.newline_not_mem_linesOf hline, hline,
    Option.getD_some, ← hmargin.length_eq, List.append_assoc, List.drop_left]

/-- **A row is read back** from the pages that hold it. -/
theorem decodeRow_linesFrom {r : Nat} {l : List Char} (hl : d.canvas.lines[r]? = some l)
    {stops : List Int} : ∀ (isFirst : Bool) (start : Int), 0 ≤ start → stops ≠ [] →
      Ascends d.canvas.width isFirst start stops →
        decodeRow (if isFirst then d.labelWidth else 0) r
          ((d.linesFrom isFirst start stops).map lineText) =
            Position.slice l start d.canvas.width := by
  induction stops with
  | nil =>
    intro isFirst start _ hne _
    exact absurd rfl hne
  | cons stop stops ih =>
    rintro isFirst start hstart - ⟨hstop, hrest⟩
    match stops, ih, hrest with
    | [], _, hrest =>
      -- The last page ends with the row, and without a mark.
      obtain rfl : stop = d.canvas.width := hrest
      have hline := h.pageLine_linesOf hl isFirst false start d.canvas.width
      rw [if_neg Bool.false_ne_true, List.append_nil] at hline
      exact hline
    | next :: stops, ih, hrest =>
      have hline := h.pageLine_linesOf hl isFirst true start stop
      have hle := hrest.start_le
      calc
        _ = ((pageLine r (lineText (d.linesOf isFirst true start stop))).drop
              (if isFirst then d.labelWidth else 0)).dropLast ++
            decodeRow 0 r ((d.linesFrom false stop (next :: stops)).map lineText) := rfl
        _ = Position.slice l start stop ++ Position.slice l stop d.canvas.width := by
          rw [hline, if_pos rfl, List.dropLast_concat]
          exact congrArg _ (ih false stop (by omega) (List.cons_ne_nil _ _) hrest)
        _ = Position.slice l start d.canvas.width :=
          Position.slice_append hstart (by omega) hle

/-- **Pages are read back**: from their text to the pages, and from the pages to the rows. -/
theorem exists_pages (b : PageBudget) : ∃ pages, d.pages b = .ok pages ∧
    split (banner b.columns) (joinPages b.columns pages) = pages ∧
      (∀ page ∈ pages, page = lineText (pageLines page) ∧
        (pageLines page).length = d.canvas.height ∧
          ∃ width, ∀ line ∈ pageLines page, '\n' ∉ line ∧ line.length = width) ∧
        ∀ r, r < d.canvas.height →
          d.canvas.showRow r 0 none = .ok (decodeRow d.labelWidth r pages) := by
  have hascends := b.ascends_cuts h.widths_pos d.labelWidth
  rw [h.totalWidth_eq] at hascends
  have hlines := h.isPage_of_mem_linesFrom (Int.le_refl 0) hascends
  obtain ⟨stop, stops, hstops⟩ :=
    List.exists_cons_of_ne_nil (b.cutsFrom_ne_nil 0 d.labelWidth d.layerWidths)
  refine ⟨_, h.isRegular.pagesFrom_eq (b.cuts d.layerWidths d.labelWidth) true 0, ?_,
    fun page hpage ↦ ?_, fun r hr ↦ ?_⟩
  · refine split_joinPages b.columns_pos ?_ (fun lines hl ↦ (hlines lines hl).1) fun lines hl ↦
      h.ne_dashes_of_mem_dropLast b.columns true 0 lines hl
    rw [PageBudget.cuts, hstops]
    exact List.cons_ne_nil _ _
  · obtain ⟨lines, hl, rfl⟩ := List.mem_map.mp hpage
    obtain ⟨hpage, hlength, width, hwidth⟩ := hlines lines hl
    rw [pageLines_lineText fun l hl ↦ (hpage l hl).2]
    exact ⟨rfl, hlength, width, fun l hl ↦ ⟨(hpage l hl).2, hwidth l hl⟩⟩
  · have hlt : r < d.canvas.lines.length := by
      rw [Canvas.length_lines]
      exact hr
    have hl : d.canvas.lines[r]? = some d.canvas.lines[r] := List.getElem?_eq_getElem hlt
    have hne : b.cuts d.layerWidths d.labelWidth ≠ [] := b.cutsFrom_ne_nil _ _ _
    have hdecode := h.decodeRow_linesFrom hl true 0 (Int.le_refl 0) hne hascends
    have hwidth : (d.canvas.lines[r]).length = d.canvas.width :=
      Canvas.length_of_mem_lines h.isSingle (List.getElem_mem hlt)
    rw [if_pos rfl, ← hwidth, Position.slice_zero_length] at hdecode
    rw [hdecode]
    exact Canvas.showRow_of_getElem? hl

/-- The pages that there are, found in the text that they make up. -/
theorem of_pages_eq {b : PageBudget} {pages : List (List Char)} (hpages : d.pages b = .ok pages) :
    split (banner b.columns) (joinPages b.columns pages) = pages ∧
      ∀ page ∈ pages, (pageLines page).length = d.canvas.height := by
  obtain ⟨pages', hpages', hsplit, hlines, -⟩ := h.exists_pages b
  obtain rfl : pages = pages' := Except.ok.inj (hpages.symm.trans hpages')
  exact ⟨hsplit, fun page hpage ↦ (hlines page hpage).2.1⟩

end IsReadable

end Diagram

end WireDiagram
