import WireDiagram.Proofs.Consistency
import WireDiagram.Proofs.Relisting

/-!
# What the check of pages overlooks

The check of pages takes the label and the mark off a row before it measures what is left. So it
passes if and only if no layer is wider than the budget, while a text keeps to its budget only if
there is room for labels and marks as well. No text that keeps to its budget is refused, but there
are texts that pass and do not keep to it (`Trace.exists_inspects`).

## Which lines are overlooked

A page on which a layer stands beside the labels, or beside another layer, has two columns to spare,
and its mark takes only one. So a label is too long only on a first page without layers, and a mark
is one column too many only behind a layer that fills the budget by itself and that other layers
follow. Where the check of a whole diagram asks for its pages to be checked, there is neither.
-/

namespace WireDiagram

open Split

/-! ## Layers as wide as the budget -/

namespace PageBudget

namespace IsDivision

variable {b : PageBudget} {widths : List Int} {labelWidth : Nat} {first : List Int}

theorem dropLast_eq {init : List (List Int)} {last : List Int}
    (h : b.IsDivision widths labelWidth first (init ++ [last])) :
    widths.dropLast = (first :: init).flatten ++ last.dropLast := by
  have hlast : last ≠ [] := by
    rcases h.rest_fits last (List.mem_append_right _ List.mem_cons_self) with ⟨_, rfl⟩ | ⟨hne, -⟩
    · exact List.cons_ne_nil _ _
    · exact hne
  rw [← h.append_flatten, List.flatten_append, List.flatten_singleton, ← List.append_assoc,
    List.dropLast_append_of_ne_nil hlast, List.flatten_cons]

variable {rest : List (List Int)} (h : b.IsDivision widths labelWidth first rest)

include h

theorem mem_dropLast {k : Nat} {block : List Int} (hblock : (first :: rest)[k]? = some block)
    (hk : k + 1 < (first :: rest).length) {width : Int} (hmem : width ∈ block) :
    width ∈ widths.dropLast := by
  rcases List.eq_nil_or_concat rest with rfl | ⟨init, last, rfl⟩
  · exact absurd hk (by simp)
  · rw [List.concat_eq_append] at h hblock hk
    rw [h.dropLast_eq]
    rw [← List.cons_append, List.getElem?_append_left (by simpa using hk)] at hblock
    exact List.mem_append_left _
      (List.mem_flatten.mpr ⟨block, List.mem_of_getElem? hblock, hmem⟩)

variable (hwidths : ∀ w ∈ widths, 0 ≤ w)

include hwidths

theorem not_mem_first {width : Int} (hwide : (b.columns : Int) ≤ width) : width ∉ first := by
  intro hmem
  have hle := h.le_totalWidth hwidths List.mem_cons_self hmem
  rcases h.first_fits with rfl | hfits
  · exact absurd hmem List.not_mem_nil
  · omega

theorem eq_singleton {block : List Int} (hblock : block ∈ rest) {width : Int}
    (hmem : width ∈ block) (hwide : (b.columns : Int) ≤ width) : block = [width] := by
  have hle := h.le_totalWidth hwidths (List.mem_cons_of_mem _ hblock) hmem
  rcases h.rest_fits block hblock with ⟨width', rfl⟩ | ⟨-, hfits⟩
  · rw [List.mem_singleton.mp hmem]
  · omega

theorem exists_page_of_le {width : Int} (hmem : width ∈ widths)
    (hwide : (b.columns : Int) ≤ width) : ∃ k, (first :: rest)[k + 1]? = some [width] := by
  obtain ⟨block, hblock, hmem⟩ := h.mem_iff.mp hmem
  rcases List.mem_cons.mp hblock with rfl | hblock
  · exact absurd hmem (h.not_mem_first hwidths hwide)
  · obtain rfl : block = [width] := h.eq_singleton hwidths hblock hmem hwide
    exact List.getElem?_of_mem hblock

theorem exists_page_of_mem_dropLast {width : Int} (hmem : width ∈ widths.dropLast)
    (hwide : (b.columns : Int) ≤ width) :
    ∃ k, (first :: rest)[k + 1]? = some [width] ∧ k + 2 < (first :: rest).length := by
  rcases List.eq_nil_or_concat rest with rfl | ⟨init, last, rfl⟩
  · have hfirst : widths = first := by
      rw [← h.append_flatten, List.flatten_nil, List.append_nil]
    rw [hfirst] at hmem
    exact absurd (List.dropLast_subset _ hmem) (h.not_mem_first hwidths hwide)
  · rw [List.concat_eq_append] at h ⊢
    have hlone : ∀ block ∈ init ++ [last], width ∈ block → block = [width] := fun block hblock hw ↦
      h.eq_singleton hwidths hblock hw hwide
    rw [h.dropLast_eq, List.flatten_cons, List.mem_append, List.mem_append] at hmem
    rcases hmem with (hmem | hmem) | hmem
    · exact absurd hmem (h.not_mem_first hwidths hwide)
    · obtain ⟨block, hblock, hmem⟩ := List.mem_flatten.mp hmem
      obtain rfl : block = [width] := hlone block (List.mem_append_left _ hblock) hmem
      obtain ⟨k, hk⟩ := List.getElem?_of_mem hblock
      have hlt := (List.getElem?_eq_some_iff.mp hk).1
      refine ⟨k, ?_, ?_⟩
      · rw [List.getElem?_cons_succ, List.getElem?_append_left hlt, hk]
      · rw [List.length_cons, List.length_append, List.length_singleton]
        omega
    · have hlast := hlone last (List.mem_append_right _ List.mem_cons_self)
        (List.dropLast_subset _ hmem)
      rw [hlast] at hmem
      exact absurd hmem List.not_mem_nil

/-- **No page is wider than the budget** if and only if the labels leave a column for a mark, every
layer that another one follows does so too, and the last layer is within the budget. -/
theorem forall_not_overruns_iff :
    (∀ k block, (first :: rest)[k]? = some block →
      ¬b.Overruns labelWidth (first :: rest).length k block) ↔
    labelWidth < b.columns ∧ (∀ width ∈ widths.dropLast, width < b.columns) ∧
      ∀ width ∈ widths, width ≤ b.columns := by
  constructor
  · intro hall
    refine ⟨?_, fun width hmem ↦ ?_, fun width hmem ↦ ?_⟩
    · by_contra hlabels
      -- Labels that leave no column for a mark leave none for a layer either.
      have hfirst : first = [] := by
        rcases h.first_fits with rfl | hfits
        · rfl
        · have hnonneg := totalWidth_nonneg fun w hw ↦
            hwidths w (h.mem_iff.mpr ⟨first, List.mem_cons_self, hw⟩)
          omega
      exact hall 0 first rfl (Or.inl ⟨rfl, hfirst, by omega⟩)
    · by_contra hwide
      obtain ⟨k, hk, hlt⟩ := h.exists_page_of_mem_dropLast hwidths hmem (by omega)
      exact hall _ _ hk (Or.inr ⟨Nat.succ_pos k, width, rfl, Or.inl ⟨hlt, by omega⟩⟩)
    · by_contra hwide
      obtain ⟨k, hk⟩ := h.exists_page_of_le hwidths hmem (by omega)
      have hlt := (List.getElem?_eq_some_iff.mp hk).1
      refine hall _ _ hk (Or.inr ⟨Nat.succ_pos k, width, rfl, ?_⟩)
      omega
  · rintro ⟨hlabels, hinner, hlast⟩ k block hblock (⟨-, -, hle⟩ | ⟨-, width, rfl, hwide⟩)
    · omega
    · rcases hwide with ⟨hlt, hle⟩ | ⟨-, hlt⟩
      · have := hinner width (h.mem_dropLast hblock hlt List.mem_cons_self)
        omega
      · have := hlast width
          (h.mem_iff.mpr ⟨[width], List.mem_of_getElem? hblock, List.mem_cons_self⟩)
        omega

end IsDivision

/-- Whether a text keeps to a budget: no line of a page is longer, labels and marks included. -/
def Covers (b : PageBudget) (text : List Char) : Prop :=
  ∀ page ∈ split (banner b.columns) text, ∀ line ∈ pageLines page, line.length ≤ b.columns

end PageBudget

/-! ## The pages of a diagram -/

/-- **Which diagrams keep to the budget.** -/
theorem Diagram.IsReadable.covers_iff {d : Diagram} (h : d.IsReadable)
    (hwidths : d.layerWidths ≠ []) {b : PageBudget} {pages : List (List Char)}
    (hpages : d.pages b = .ok pages) :
    b.Covers (joinPages b.columns pages) ↔
      d.labelWidth < b.columns ∧ (∀ width ∈ d.layerWidths.dropLast, width < b.columns) ∧
        ∀ width ∈ d.layerWidths, width ≤ b.columns := by
  obtain ⟨hsplit, hheight⟩ := h.of_pages_eq hpages
  obtain ⟨first, rest, hblocks, hdiv⟩ := b.exists_isDivision d.layerWidths d.labelWidth
  have hcuts : b.cuts d.layerWidths d.labelWidth = blockEnds 0 (first :: rest) := by
    rw [b.cuts_eq, hblocks]
  have heq : pages = (d.pageLinesOf (first :: rest)).map lineText := by
    rw [h.isRegular.eq_of_pages_eq hpages, hcuts, pageLinesOf]
  have hlength : pages.length = (first :: rest).length := by
    rw [heq, List.length_map, length_pageLinesOf]
  have hiff : ∀ k page block, pages[k]? = some page → (first :: rest)[k]? = some block →
      ∀ line ∈ pageLines page,
        (b.columns < line.length ↔ b.Overruns d.labelWidth (first :: rest).length k block) := by
    rw [heq]
    exact h.pageLines_lt_iff hwidths hdiv hcuts
  rw [PageBudget.Covers, hsplit,
    ← hdiv.forall_not_overruns_iff fun w hw ↦ Int.le_of_lt (h.widths_pos w hw)]
  constructor
  · intro hcovers k block hblock hoverruns
    have hlt : k < pages.length := by
      rw [hlength]
      exact (List.getElem?_eq_some_iff.mp hblock).1
    -- All lines of a page have one length, so any of them will do.
    have hpos : 0 < (pageLines pages[k]).length := by
      rw [hheight _ (List.getElem_mem hlt), Canvas.height]
      omega
    obtain ⟨line, hline⟩ := List.exists_mem_of_length_pos hpos
    have hlong := (hiff k _ block (List.getElem?_eq_getElem hlt) hblock line hline).mpr hoverruns
    have hshort := hcovers _ (List.getElem_mem hlt) line hline
    omega
  · intro hall page hpage line hline
    obtain ⟨k, hk⟩ := List.getElem?_of_mem hpage
    have hlt : k < (first :: rest).length := by
      rw [← hlength]
      exact (List.getElem?_eq_some_iff.mp hk).1
    have hblock := List.getElem?_eq_getElem hlt
    by_contra hlong
    exact hall k _ hblock ((hiff k page _ hk hblock line hline).mp (by omega))

theorem Diagram.lt_of_fits {d : Diagram} {b : PageBudget} (hpos : ∀ w ∈ d.layerWidths, 0 < w)
    (h : d.fits b = .ok true) :
    d.labelWidth < b.columns ∧ ∀ width ∈ d.layerWidths, width < b.columns := by
  cases hwidest : d.layerWidths.max? with
  | none =>
    rw [fits, hwidest] at h
    contradiction
  | some widest =>
    rw [fits, hwidest, Except.ok.injEq, decide_eq_true_eq] at h
    obtain ⟨hmem, hle⟩ := List.max?_eq_some_iff.mp hwidest
    have hwide := hpos widest hmem
    refine ⟨by omega, fun width hwidth ↦ ?_⟩
    have := hle width hwidth
    omega

/-! ## The text of a trace -/

namespace Trace

variable {t : Trace}

/-- What the check of the pages of a text tells, and what it does not. -/
structure Inspects (t : Trace) (b : PageBudget) (d : Diagram) (text : String) : Prop where
  /-- The diagram is that of the trace. -/
  diagram_eq : Diagram.ofTrace t = .ok d
  /-- The text is that of the trace. -/
  text_eq : t.draw (.int b.columns) = .ok text
  /-- The pages of the text are those of the diagram. -/
  pages_eq : d.pages b = .ok (split (banner b.columns) text.toList)
  /-- The check passes if no layer is wider than the budget, and is refused as a failed check
  otherwise. -/
  decides_checkPages : Decides
    (PageCheck.checkPages text.toList (.int t.wireCount) (.int b.columns)) ()
    (∀ width ∈ d.layerWidths, width ≤ b.columns)
  /-- It passes if the text keeps to the budget. -/
  checkPages_eq : b.Covers text.toList →
    PageCheck.checkPages text.toList (.int t.wireCount) (.int b.columns) = .ok ()
  /-- A text that passes keeps to the budget if and only if the labels are below the budget and no
  layer but the last one is just as wide as the budget. -/
  covers_iff : PageCheck.checkPages text.toList (.int t.wireCount) (.int b.columns) = .ok () →
    (b.Covers text.toList ↔
      d.labelWidth < b.columns ∧ (b.columns : Int) ∉ d.layerWidths.dropLast)
  /-- A text keeps to the budget if the check of the diagram asks for its pages to be checked. -/
  covers_of_fits : d.fits b = .ok true → b.Covers text.toList

theorem exists_inspects_of_hasRoom (hne : t.instructions ≠ [])
    (hnames : ∀ i ∈ t.instructions, '\n' ∉ i.name.toList) {b : PageBudget}
    (hroom : t.HasRoom b) : ∃ d text, t.Inspects b d text := by
  obtain ⟨d, pages, blocks, text, hfits⟩ := exists_fits_of_hasRoom hne hnames hroom
  obtain ⟨-, hcolumns⟩ := hroom.resolve_left hne
  have hdecides := hfits.decides_checkPages hne hnames hcolumns
  obtain ⟨c, hdraws, rfl⟩ := exists_draws hfits.diagram_eq
  have hreadable := isReadable_diagram hdraws hne hnames
  have hwidths := layerWidths_ne_nil hne c
  have hcovers := hreadable.covers_iff hwidths hfits.pages_eq
  rw [← hfits.toList_eq] at hcovers
  have hpages : (t.diagram c).pages b = .ok (split (banner b.columns) text.toList) := by
    rw [hfits.toList_eq, (hreadable.of_pages_eq hfits.pages_eq).1, hfits.pages_eq]
  refine ⟨_, text, hfits.diagram_eq, hfits.text_eq, hpages, hdecides,
    fun h ↦ hdecides.eq_ok (hcovers.mp h).2.2, fun hpasses ↦ hcovers.trans ?_, fun hroom ↦ ?_⟩
  · have hle := hdecides.eq_ok_iff.mp hpasses
    constructor
    · rintro ⟨hlabels, hinner, -⟩
      exact ⟨hlabels, fun hmem ↦ Int.lt_irrefl _ (hinner _ hmem)⟩
    · rintro ⟨hlabels, hinner⟩
      refine ⟨hlabels, fun width hmem ↦ ?_, hle⟩
      exact lt_of_le_of_ne (hle width (List.dropLast_subset _ hmem)) fun heq ↦ hinner (heq ▸ hmem)
  · obtain ⟨hlabels, hlt⟩ := Diagram.lt_of_fits hreadable.widths_pos hroom
    exact hcovers.mpr ⟨hlabels, fun width hwidth ↦ hlt width (List.dropLast_subset _ hwidth),
      fun width hwidth ↦ Int.le_of_lt (hlt width hwidth)⟩

/-- **What the check of pages is worth.** It passes whatever keeps to the budget, and what passes
does so but for two kinds of lines. There is a text to be checked unless there is no room for it. -/
theorem exists_inspects (hne : t.instructions ≠ [])
    (hnames : ∀ i ∈ t.instructions, '\n' ∉ i.name.toList) (b : PageBudget) :
    (t.HasRoom b ∧ ∃ d text, t.Inspects b d text) ∨
      (¬t.HasRoom b ∧ t.draw (.int b.columns) = .error (t.textRefusal b)) :=
  or_draw_eq_error (exists_inspects_of_hasRoom hne hnames)

/-- A gate that fills a page by itself, and another one behind it: the mark makes the lines of that
page longer than the budget, and they pass. -/
theorem exists_inspects_full_page : ∃ text,
    (ofSingles 1 [("wxyz", 0), ("h", 0)]).draw (.int 8) = .ok text ∧
      PageCheck.checkPages text.toList (.int 1) (.int 8) = .ok () ∧
        ¬(⟨8, by decide⟩ : PageBudget).Covers text.toList := by
  have hroom : (ofSingles 1 [("wxyz", 0), ("h", 0)]).HasRoom ⟨8, by decide⟩ :=
    Or.inr ⟨by decide +kernel, by decide⟩
  have hcases := exists_inspects (t := .ofSingles 1 [("wxyz", 0), ("h", 0)])
    (List.cons_ne_nil _ _) (by decide) ⟨8, by decide⟩
  obtain ⟨-, d, text, hinspects⟩ := hcases.resolve_right fun h ↦ h.1 hroom
  obtain ⟨c, -, rfl⟩ := exists_draws hinspects.diagram_eq
  have hwidths : ((ofSingles 1 [("wxyz", 0), ("h", 0)]).diagram c).layerWidths = [8, 5] := by
    show (Slot.layers (ofSingles 1 [("wxyz", 0), ("h", 0)]).slots).map Layer.width = [8, 5]
    decide +kernel
  have hpasses := hinspects.decides_checkPages.eq_ok (by rw [hwidths]; decide)
  refine ⟨text, hinspects.text_eq, hpasses, fun hcovers ↦ ?_⟩
  have hinner := ((hinspects.covers_iff hpasses).mp hcovers).2
  rw [hwidths] at hinner
  exact hinner List.mem_cons_self

/-- The trace of one swap of two wires. -/
def oneSwap : Trace :=
  ⟨2, [.gate "swap" [0, 1] [] (by decide)], by decide⟩

/-- A swap on pages of five columns. Its own three columns pass; the first page, which holds nothing
but labels and marks, has six columns and passes as well. -/
theorem not_covers_oneSwap :
    (oneSwap.instructions ≠ [] ∧ ∀ i ∈ oneSwap.instructions, '\n' ∉ i.name.toList) ∧
      ∃ text, oneSwap.draw (.int 5) = .ok text ∧
        PageCheck.checkPages text.toList (.int 2) (.int 5) = .ok () ∧
          ¬(⟨5, by decide⟩ : PageBudget).Covers text.toList := by
  have hne : oneSwap.instructions ≠ [] := List.cons_ne_nil _ _
  have hnames : ∀ i ∈ oneSwap.instructions, '\n' ∉ i.name.toList := by decide
  obtain ⟨d, text, hinspects⟩ := exists_inspects_of_hasRoom hne hnames (b := ⟨5, by decide⟩)
    (Or.inr ⟨by decide +kernel, by decide⟩)
  obtain ⟨c, -, rfl⟩ := exists_draws hinspects.diagram_eq
  have hwidths : (oneSwap.diagram c).layerWidths = [3] := rfl
  have hlabels : (oneSwap.diagram c).labelWidth = 5 := rfl
  have hpasses := hinspects.decides_checkPages.eq_ok (by rw [hwidths]; decide)
  refine ⟨⟨hne, hnames⟩, text, hinspects.text_eq, hpasses, fun hcovers ↦ ?_⟩
  have hlt := ((hinspects.covers_iff hpasses).mp hcovers).1
  rw [hlabels] at hlt
  exact Nat.lt_irrefl 5 hlt

end Trace

end WireDiagram
