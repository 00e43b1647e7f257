import WireDiagram.Draft.Agreement.Canvas
import WireDiagram.Draft.Page

/-!
# Diagrams paged as drafts

A diagram is also a draft of one, and its pages are the same either way.
-/

namespace WireDiagram.DiagramDraft

open Diagram

variable (d : Diagram)

theorem labelWidth_ofDiagram : (ofDiagram d).labelWidth = .ok d.labelWidth := by
  have lengths (labels : List String) :
      (labels.map Value.text).mapM Value.length = .ok (labels.map String.length) := by
    induction labels with
    | nil => rfl
    | cons label labels ih =>
      simp only [List.map_cons, List.mapM_cons, ih, Value.length]
      rfl
  simp only [labelWidth, ofDiagram, lengths]
  rfl

theorem firstRows_ofDiagram (width : Nat) (start stop : Int) (labels : List String)
    (rows : List (List Cell)) :
    (ofDiagram d).firstRows width (.int start) (.int stop) (labels.map Value.text)
        (rows.map (List.map Cell.value)) =
      if labels.length < rows.length then .error .noSuchPosition
      else .ok (List.zipWith (· ++ ·) (labels.map (padLeft width))
        (rows.map (d.canvas.showSlice start (some stop)))) := by
  have shown (cells : List Cell) : (ofDiagram d).canvas.showSlice (.int start) (.int stop)
      (cells.map Cell.value) = .ok (d.canvas.showSlice start (some stop) cells) :=
    CanvasDraft.showSlice_ofCanvas d.canvas start stop cells
  induction rows generalizing labels with
  | nil => simp [firstRows]
  | cons cells rows ih => cases labels with
    | nil => simp [firstRows, shown, padLabel, bind, Except.bind]
    | cons label labels =>
      simp only [List.map_cons, firstRows, shown, bind, Except.bind, List.head?_cons,
        List.tail_cons, padLabel, ih, List.length_cons, Nat.add_lt_add_iff_right]
      by_cases h : labels.length < rows.length <;> simp [h]

theorem page_ofDiagram (isFirst goesOn : Bool) (start stop : Int) :
    (ofDiagram d).page isFirst goesOn (.int start) (.int stop) =
      d.page isFirst goesOn start stop := by
  have hrows : (ofDiagram d).canvas.rows = d.canvas.rows.map (List.map Cell.value) :=
    CanvasDraft.rows_ofCanvas d.canvas
  have hshown : (ofDiagram d).canvas.showRowsAt (.int start) (.int stop) =
      .ok (d.pageRows start stop) := CanvasDraft.showRowsAt_ofCanvas d.canvas start stop
  have hheight : d.canvas.rows.length = d.canvas.height := Grid.length_toLists d.canvas.grid
  cases isFirst with
  | false => simp [page, Diagram.page, hshown, bind, Except.bind]
  | true =>
    have first := firstRows_ofDiagram d d.labelWidth start stop d.rowLabels d.canvas.rows
    simp only [page, Diagram.page, if_true, labelWidth_ofDiagram, bind, Except.bind, hrows,
      prefixes]
    rw [show (ofDiagram d).rowLabels = d.rowLabels.map Value.text from rfl, first, hheight]
    by_cases h : d.rowLabels.length < d.canvas.height <;> simp only [h, if_true, if_false] <;> rfl

theorem pagesFrom_ofDiagram (isFirst : Bool) (start : Int) (cuts : List Int) :
    (ofDiagram d).pagesFrom isFirst (.int start) (cuts.map .int) =
      d.pagesFrom isFirst start cuts := by
  induction cuts generalizing isFirst start with
  | nil => rfl
  | cons stop cuts ih =>
    simp only [List.map_cons, pagesFrom, Diagram.pagesFrom, page_ofDiagram, ih,
      List.isEmpty_map]

/-- **A diagram has the same pages whether it was put together by hand or not.** -/
theorem render_ofDiagram (b : PageBudget) : (ofDiagram d).render b = d.render b := by
  have hwidths : (ofDiagram d).widths = d.layerWidths.map .int := rfl
  simp only [render, Diagram.render, hwidths, labelWidth_ofDiagram, bind, Except.bind,
    b.draftCuts_int]
  cases Room.check maxColumns b.columns with
  | error fault => rfl
  | ok _ =>
    rw [pagesFrom_ofDiagram]
    rfl

end WireDiagram.DiagramDraft
