import WireDiagram.Draft.Agreement.Canvas
import WireDiagram.Draft.Drawing
import WireDiagram.Operator.Drawing

/-!
# Operators drawn as drafts

The drawing of an operator is a sketch, that of a draft a painting. On a canvas of as many wires as
the sketch was made for, the two leave the same cells and end in the same fault, provided that no
wire was written as a glyph: a painting that stops at such a wire names the glyph.
-/

namespace WireDiagram

/-! ## Painting a sketch -/

/-- The characters of a text, one after the other from column `col` on. -/
def textStrokes (row col : Int) (text : String) : List Stroke :=
  text.toList.zipIdx.map fun (ch, k) ↦ .put row (col + k) (.ofChar ch)

namespace Canvas

theorem wires_stroke {c c' : Canvas} {s : Stroke} (h : c.stroke s = .ok c') :
    c'.wires = c.wires := by
  cases s with
  | put row col x =>
    simp only [stroke, set] at h
    split at h <;> cases h
    rfl
  | merge row col x =>
    simp only [stroke, merge, bind, Except.bind] at h
    split at h
    · cases h
    · split at h <;> cases h
      rfl

theorem wires_strokeAll (c : Canvas) (strokes : List Stroke) :
    (c.strokeAll strokes).1.wires = c.wires := by
  induction strokes generalizing c with
  | nil => rfl
  | cons s strokes ih =>
    simp only [strokeAll]
    cases h : c.stroke s with
    | ok c' => simpa only [wires_stroke h] using ih c'
    | error fault => rfl

theorem paint_append (c : Canvas) (s t : Sketch) :
    c.paint (s ++ t) = match c.paint s with
      | (c', none) => c'.paint t
      | (c', some fault) => (c', some fault) := by
  rcases s with ⟨strokes, _ | fault⟩
  · show c.paint ⟨strokes ++ t.strokes, t.fault?⟩ = _
    simp only [paint, strokeAll_append]
    rcases c.strokeAll strokes with ⟨c', _ | fault⟩ <;> rfl
  · show c.paint ⟨strokes, some fault⟩ = _
    simp only [paint]
    rcases c.strokeAll strokes with ⟨c', _ | fault'⟩ <;> rfl

theorem paint_ofStrokes (c : Canvas) (strokes : List Stroke) :
    c.paint (.ofStrokes strokes) = c.strokeAll strokes := by
  rw [paint, Sketch.ofStrokes]
  rcases c.strokeAll strokes with ⟨c', _ | fault⟩ <;> rfl

theorem strokeAll_put_cons (c : Canvas) (row col : Int) (x : Cell) (strokes : List Stroke) :
    c.strokeAll (.put row col x :: strokes) =
      if c.Inside row col then (c.put row col x).strokeAll strokes
      else (c, some (c.outside row col)) := by
  simp only [strokeAll, stroke, set]
  by_cases h : c.Inside row col <;> simp [h]

theorem paint_put (c : Canvas) (row col : Int) (x : Cell) :
    c.paint (.ofStrokes [.put row col x]) =
      if c.Inside row col then (c.put row col x, none) else (c, some (c.outside row col)) := by
  simp only [paint, Sketch.ofStrokes, strokeAll_put_cons]
  by_cases h : c.Inside row col <;> simp [h, strokeAll]

theorem strokeAll_put (c : Canvas) (row : Int) (cols : List Int) (x : Cell)
    (h : ∀ col ∈ cols, c.Inside row col) :
    c.strokeAll (cols.map fun col ↦ .put row col x) = (c.putAll row cols x, none) := by
  induction cols generalizing c with
  | nil => rfl
  | cons col cols ih =>
    have hfirst : c.Inside row col := h col List.mem_cons_self
    have hrest := ih (c.put row col x) fun k hk ↦ h k (List.mem_cons_of_mem col hk)
    rw [List.map_cons, strokeAll_put_cons, if_pos hfirst, hrest]
    rfl

/-- A range of cells that are all on the canvas is filled. -/
theorem fill_of_inside (c : Canvas) {row start stop : Int}
    (h : ∀ col ∈ intRange start stop, c.Inside row col) (x : Cell) :
    c.fill row start stop x = .ok (c.putAll row (intRange start stop) x) := by
  by_cases hle : stop ≤ start
  · simp [fill, hle, intRange_of_le hle, putAll]
  · have hfirst := h start (mem_intRange_iff.2 (by omega))
    have hlast := h (stop - 1) (mem_intRange_iff.2 (by omega))
    simp [fill, hle, hfirst, hlast]

/-- A range that is not all on the canvas is refused at one of its ends. -/
theorem exists_fill_error (c : Canvas) {row start stop : Int}
    (h : ¬∀ col ∈ intRange start stop, c.Inside row col) (x : Cell) :
    ∃ fault, c.fill row start stop x = .error fault ∧ fault.kind = .position := by
  rw [fill]
  by_cases hle : stop ≤ start
  · rw [intRange_of_le hle] at h
    exact absurd (fun col hcol ↦ absurd hcol List.not_mem_nil) h
  rw [if_neg hle]
  by_cases hfirst : c.Inside row start
  · by_cases hlast : c.Inside row (stop - 1)
    · refine absurd (fun col hcol ↦ ?_) h
      have hrange := mem_intRange_iff.1 hcol
      have hl := hfirst.2
      have hr := hlast.2
      exact ⟨hfirst.1, by omega, by omega⟩
    · rw [if_neg (not_not_intro hfirst), if_pos hlast]
      exact ⟨_, rfl, rfl⟩
  · rw [if_pos hfirst]
    exact ⟨_, rfl, rfl⟩

/-- Blanking the cells between two walls that are on the canvas never fails. -/
theorem fill_between (c : Canvas) {row left right : Int} (hleft : c.Inside row left)
    (hright : c.Inside row right) (x : Cell) :
    c.fill row (left + 1) right x = .ok (c.putAll row (intRange (left + 1) right) x) := by
  refine c.fill_of_inside (fun col hcol ↦ ?_) x
  have hk := mem_intRange_iff.1 hcol
  have hl := hleft.2
  have hr := hright.2
  exact ⟨hleft.1, by omega, by omega⟩

theorem paint_textStrokes (c : Canvas) (row col : Int) (text : String) :
    c.paint (.ofStrokes (textStrokes row col text)) = c.write row col text.toList := by
  have strokes (c : Canvas) (k : Nat) (chars : List Char) :
      c.strokeAll ((chars.zipIdx k).map fun p ↦ .put row (col + p.2) (.ofChar p.1)) =
        c.write row (col + k) chars := by
    induction chars generalizing c k with
    | nil => rfl
    | cons ch chars ih =>
      have hk : col + ((k + 1 : Nat) : Int) = col + k + 1 := by omega
      simp only [List.zipIdx_cons, List.map_cons, strokeAll, stroke, set, write]
      by_cases h : c.Inside row (col + k)
      · simp only [h, if_true, ih, hk]
      · simp only [h, if_false]
  have h : c.strokeAll (textStrokes row col text) = c.write row (col + 0) text.toList :=
    strokes c 0 text.toList
  rw [Int.add_zero] at h
  simp only [paint, Sketch.ofStrokes, h]
  rcases c.write row col text.toList with ⟨c', _ | fault⟩ <;> rfl

end Canvas

namespace Painting

/-! ## What a painting does -/

/-- The canvas and the fault of a painting, as a painting returns them. -/
def outcome : Canvas × Option Fault → Except Fault Unit × CanvasDraft
  | (c, none) => (.ok (), .ofCanvas c)
  | (c, some fault) => (.error fault, .ofCanvas c)

/-- On canvases of `n` wires, a painting does what a sketch does. -/
def Paints (n : Nat) (p : Painting Unit) (s : Sketch) : Prop :=
  ∀ c : Canvas, c.wires = n → p (.ofCanvas c) = outcome (c.paint s)

/-- On canvases of `n` wires, a painting only looks something up. -/
def LooksUp {α : Type} (n : Nat) (p : Painting α) (r : Except Fault α) : Prop :=
  ∀ c : Canvas, c.wires = n → p (.ofCanvas c) = (r, .ofCanvas c)

variable {α : Type} {n : Nat}

theorem lift_ok_bind {β : Type} (a : α) (f : α → Painting β) :
    (liftM (Except.ok a : Except Fault α) : Painting α) >>= f = f a := rfl

theorem lift_error_bind {β : Type} (fault : Fault) (f : α → Painting β) :
    (liftM (Except.error fault : Except Fault α) : Painting α) >>= f = throw fault := rfl

theorem throw_bind {β : Type} (fault : Fault) (f : α → Painting β) :
    (throw fault : Painting α) >>= f = throw fault := rfl

theorem paints_throw (fault : Fault) : Paints n (throw fault) (.fail fault) :=
  fun _ _ ↦ rfl

theorem paints_pure : Paints n (pure ()) (.ofStrokes []) :=
  fun _ _ ↦ rfl

theorem bind_apply {β : Type} (p : Painting α) (f : α → Painting β) (c : CanvasDraft) :
    (p >>= f) c = match p c with
      | (.ok a, c') => f a c'
      | (.error fault, c') => (.error fault, c') := by
  show (ExceptT.bind p f) c = _
  simp only [ExceptT.bind, ExceptT.mk, ExceptT.bindCont, Bind.bind, StateT.bind]
  rcases p c with ⟨_ | _, c'⟩ <;> rfl

/-- One painting after another does one sketch after the other. -/
theorem Paints.bind {p q : Painting Unit} {s t : Sketch} (hp : Paints n p s) (hq : Paints n q t) :
    Paints n (p >>= fun _ ↦ q) (s ++ t) := by
  intro c hc
  rw [bind_apply, hp c hc, c.paint_append]
  have hw : (c.paint s).1.wires = n := by
    rw [← hc, ← c.wires_strokeAll s.strokes]
    simp only [Canvas.paint]
    rcases c.strokeAll s.strokes with ⟨c', _ | fault⟩ <;> rfl
  rcases h : c.paint s with ⟨c', _ | fault⟩
  · rw [h] at hw
    exact hq c' hw
  · rfl

theorem Paints.andThen {p q : Painting Unit} {xs ys : List Stroke} (hp : Paints n p (.ofStrokes xs))
    (hq : Paints n q (.ofStrokes ys)) : Paints n (p >>= fun _ ↦ q) (.ofStrokes (xs ++ ys)) :=
  hp.bind hq

/-- What follows a look-up may use its result. -/
theorem LooksUp.bind {p : Painting α} {r : Except Fault α} {f : α → Painting Unit} {s : Sketch}
    (hp : LooksUp n p r) (hf : ∀ a, r = .ok a → Paints n (f a) s)
    (hr : ∀ fault, r = .error fault → s = .fail fault) : Paints n (p >>= f) s := by
  intro c hc
  rw [bind_apply, hp c hc]
  cases r with
  | ok a => exact hf a rfl c hc
  | error fault => rw [hr fault rfl]; rfl

theorem looksUp_pure (a : α) : LooksUp n (pure a : Painting α) (.ok a) :=
  fun _ _ ↦ rfl

/-! ## Strokes -/

theorem paints_stroke {f : CanvasDraft → Except Fault CanvasDraft} {s : Stroke}
    (h : ∀ c : Canvas, f (.ofCanvas c) = (c.stroke s).map .ofCanvas) :
    Paints n (stroke f) (.ofStrokes [s]) := by
  intro c _
  simp only [stroke, h, Canvas.paint, Sketch.ofStrokes, Canvas.strokeAll]
  cases c.stroke s <;> rfl

theorem paints_put (row col : Int) (x : Cell) :
    Paints n (put (.int row) (.int col) x.value) (.ofStrokes [.put row col x]) :=
  paints_stroke fun c ↦ CanvasDraft.setAt_ofCanvas c row col x

theorem paints_mark (row col : Int) (g : Glyph) :
    Paints n (put (.int row) (.int col) (.glyph g)) (.ofStrokes [.put row col (.glyph g)]) :=
  paints_put row col (.glyph g)

theorem paints_merge (row col : Int) (g : Glyph) :
    Paints n (merge (.int row) (.int col) g) (.ofStrokes [.merge row col (.glyph g)]) :=
  paints_stroke fun c ↦ CanvasDraft.mergeAt_ofCanvas c row col (.glyph g)

theorem looksUp_rowOf (wire : Int) :
    LooksUp n (rowOf (.int wire)) ((checkedRow n wire).map .int) := by
  intro c hc
  have h : (CanvasDraft.ofCanvas c).rowOf (.int wire) = (checkedRow n wire).map .int := by
    subst hc
    have within : (Value.int wire).isWithin (CanvasDraft.ofCanvas c).wires =
        .ok (decide (0 ≤ wire ∧ wire < c.wires)) := Value.isWithin_int wire c.wires
    simp only [CanvasDraft.rowOf, within, checkedRow, bind, Except.bind]
    by_cases hw : 0 ≤ wire ∧ wire < c.wires <;> simp only [hw] <;> rfl
  rw [← h]
  rfl

theorem paints_forM {f : Value → Painting Unit} {strokes : Int → List Stroke} {ks : List Int}
    (h : ∀ k ∈ ks, Paints n (f (.int k)) (.ofStrokes (strokes k))) :
    Paints n ((ks.map Value.int).forM f) (.ofStrokes (ks.flatMap strokes)) := by
  induction ks with
  | nil => exact paints_pure
  | cons k ks ih =>
    have hrest := ih fun j hj ↦ h j (List.mem_cons_of_mem k hj)
    simpa using (h k List.mem_cons_self).bind hrest

theorem paints_line (col start stop : Int) :
    Paints n (line (.int col) (.int start) (.int stop))
      (.ofStrokes (lineStrokes col start stop)) := by
  rw [lineStrokes, List.map_eq_flatMap]
  exact paints_forM fun row _ ↦ paints_merge row col .line

/-- A row between two walls is made of both walls and the blank between them. -/
theorem paints_wallRow (row left right : Int) :
    Paints n (do
        put (.int row) (.int left) (.glyph .line)
        put (.int row) (.int right) (.glyph .line)
        blank (.int row) (.int (left + 1)) (.int right))
      (.ofStrokes (.put row left (.glyph .line) :: .put row right (.glyph .line) ::
        (intRange (left + 1) right).map fun col ↦ .put row col .blank)) := by
  intro c hc
  rw [bind_apply, paints_mark row left .line c hc, c.paint_put]
  by_cases hleft : c.Inside row left
  · let c₁ := c.put row left (.glyph .line)
    have second := paints_mark row right .line c₁ hc
    rw [c₁.paint_put] at second
    simp only [hleft, if_true, outcome]
    rw [bind_apply, second]
    by_cases hright : c₁.Inside row right
    · let c₂ := c₁.put row right (.glyph .line)
      have blanked : blank (.int row) (.int (left + 1)) (.int right) (.ofCanvas c₂) =
          (.ok (), .ofCanvas (c₂.putAll row (intRange (left + 1) right) .blank)) := by
        have h := CanvasDraft.fillAt_ofCanvas c₂ row (left + 1) right .blank
        rw [c₂.fill_between hleft hright] at h
        simp only [blank, stroke, h]
        rfl
      have strokes := c₂.strokeAll_put row (intRange (left + 1) right) .blank fun col hcol ↦ by
        have hk := mem_intRange_iff.1 hcol
        have hl : 0 ≤ left ∧ left < c.width := hleft.2
        have hr : 0 ≤ right ∧ right < c.width := hright.2
        exact (⟨hleft.1, by omega, by omega⟩ : c.Inside row col)
      simp only [hright, if_true, outcome]
      rw [blanked]
      have painted : c.paint (.ofStrokes (.put row left (.glyph .line) ::
          .put row right (.glyph .line) ::
            (intRange (left + 1) right).map fun col ↦ .put row col .blank)) =
          (c₂.putAll row (intRange (left + 1) right) .blank, none) := by
        rw [Canvas.paint, Sketch.ofStrokes, Canvas.strokeAll_put_cons, if_pos hleft,
          Canvas.strokeAll_put_cons, if_pos hright, strokes]
      rw [painted]
    · rw [if_neg hright, Canvas.paint, Sketch.ofStrokes, Canvas.strokeAll_put_cons, if_pos hleft,
        Canvas.strokeAll_put_cons, if_neg hright]
      rfl
  · rw [if_neg hleft, Canvas.paint, Sketch.ofStrokes, Canvas.strokeAll_put_cons, if_neg hleft]
    rfl

theorem paints_write (row col : Int) (text : String) :
    Paints n (write (.int row) (.int col) (.text text))
      (.ofStrokes (textStrokes row col text)) := by
  intro c _
  rw [c.paint_textStrokes]
  have h := CanvasDraft.writeAt_ofCanvas c row col 0 text.toList
  have hm : (Value.text text).members =
      .ok (text.toList.map fun ch ↦ (Cell.ofChar ch).value) := rfl
  simp only [Int.natCast_zero, Int.add_zero] at h
  simp only [write, hm, lift_ok_bind, h]
  rcases c.write row col text.toList with ⟨c', _ | fault⟩ <;> rfl

/-- What follows the look-up of a wire that exists. -/
theorem paints_rowOf {wire row : Int} {f : Value → Painting Unit} {s : Sketch}
    (hrow : checkedRow n wire = .ok row) (h : Paints n (f (.int row)) s) :
    Paints n (rowOf (.int wire) >>= f) s := by
  refine (looksUp_rowOf wire).bind (fun v hv ↦ ?_) fun fault hf ↦ ?_
  · rw [hrow] at hv
    cases hv
    exact h
  · rw [hrow] at hf
    cases hf

/-- What follows the look-up of a wire that does not exist is not painted. -/
theorem paints_rowOf_fail {wire : Int} {fault : Fault} {f : Value → Painting Unit}
    (hrow : checkedRow n wire = .error fault) :
    Paints n (rowOf (.int wire) >>= f) (.fail fault) := by
  refine (looksUp_rowOf wire).bind (fun v hv ↦ ?_) fun fault' hf ↦ ?_
  · rw [hrow] at hv
    cases hv
  · rw [hrow] at hf
    cases hf
    rfl

theorem looksUp_rowOf_bind {wire row : Int} {f : Value → Painting α} {r : Except Fault α}
    (hrow : checkedRow n wire = .ok row) (h : LooksUp n (f (.int row)) r) :
    LooksUp n (rowOf (.int wire) >>= f) r := by
  intro c hc
  rw [bind_apply, looksUp_rowOf wire c hc, hrow]
  exact h c hc

theorem looksUp_rowOf_fail {wire : Int} {fault : Fault} {f : Value → Painting α}
    (hrow : checkedRow n wire = .error fault) :
    LooksUp n (rowOf (.int wire) >>= f) (.error fault) := by
  intro c hc
  rw [bind_apply, looksUp_rowOf wire c hc, hrow]
  rfl

/-- Wires looked up one at a time, with some strokes for each. -/
theorem paints_controlSketch {f : Value → Painting Unit} {strokes : Int → List Stroke}
    (h : ∀ row, Paints n (f (.int row)) (.ofStrokes (strokes row))) (wires : List Int) :
    Paints n ((wires.map Value.int).forM fun wire ↦ rowOf wire >>= f)
      (controlSketch n strokes wires) := by
  induction wires with
  | nil => exact paints_pure
  | cons wire wires ih =>
    show Paints n ((rowOf (.int wire) >>= f) >>= fun _ ↦
      (wires.map Value.int).forM fun wire ↦ rowOf wire >>= f) _
    cases hrow : checkedRow n wire with
    | ok row =>
      simp only [controlSketch, hrow]
      exact (paints_rowOf hrow (h row)).bind ih
    | error fault =>
      simp only [controlSketch, hrow]
      rw [bind_assoc]
      exact paints_rowOf_fail hrow

end Painting

namespace OperatorDraft

open Painting

variable {n : Nat} {op : Operator} {b : Box}

/-! ## Boxes -/

theorem looksUp_boxRows (wires : List Int) :
    LooksUp n (boxRows (wires.map Value.int))
      ((Operator.boxRows n wires).map fun (top, bottom) ↦ (.int top, .int bottom)) := by
  cases wires with
  | nil => exact fun _ _ ↦ rfl
  | cons w ws =>
    simp only [boxRows, Value.least_int, Value.greatest_int, Operator.boxRows, List.min?_cons',
      List.max?_cons', lift_ok_bind]
    cases hlow : checkedRow n (ws.foldl min w) with
    | error fault => exact looksUp_rowOf_fail hlow
    | ok first =>
      refine looksUp_rowOf_bind hlow ?_
      simp only [Value.minus_int, lift_ok_bind]
      cases hhigh : checkedRow n (ws.foldl max w) with
      | error fault => exact looksUp_rowOf_fail hhigh
      | ok last => exact looksUp_rowOf_bind hhigh (looksUp_pure _)

theorem checkedRow_eq_ok {wire row : Int} (h : checkedRow n wire = .ok row) :
    0 ≤ wire ∧ wire < n := by
  unfold checkedRow at h
  split at h
  · assumption
  · cases h

/-- If the first and the last of some wires exist, so do all of them. -/
theorem wires_of_boxRows {wires : List Int} {rows : Int × Int}
    (h : Operator.boxRows n wires = .ok rows) : ∀ w ∈ wires, 0 ≤ w ∧ w < n := by
  intro w hw
  unfold Operator.boxRows at h
  split at h
  · rename_i low high hmin hmax
    have hl := (List.min?_eq_some_iff.1 hmin).2 w hw
    have hh := (List.max?_eq_some_iff.1 hmax).2 w hw
    simp only [bind, Except.bind] at h
    split at h
    · cases h
    · rename_i first hfirst
      split at h
      · cases h
      · rename_i last hlast
        have := checkedRow_eq_ok hfirst
        have := checkedRow_eq_ok hlast
        omega
  · cases h

/-- What follows the look-up of the rows of a box. -/
theorem paints_boxRows {wires : List Int} {f : Value × Value → Painting Unit} {s : Sketch}
    (hok : ∀ rows, Operator.boxRows n wires = .ok rows → Paints n (f (.int rows.1, .int rows.2)) s)
    (herror : ∀ fault, Operator.boxRows n wires = .error fault → s = .fail fault) :
    Paints n (boxRows (wires.map Value.int) >>= f) s := by
  refine (looksUp_boxRows wires).bind (fun found h ↦ ?_) fun fault h ↦ ?_ <;>
    cases hrows : Operator.boxRows n wires <;> rw [hrows] at h <;> cases h
  · exact hok _ hrows
  · exact herror _ hrows

theorem paints_frame (hleft : op.column = .ok b.left)
    (hright : b.right = b.left + op.width - 1) :
    Paints n ((ofOperator op).drawFrame (.int b.top) (.int b.bottom)) (.ofStrokes b.frame) := by
  have hr : (ofOperator op).rightColumn = .ok (.int b.right) := by
    rw [rightColumn_ofOperator, Operator.columns, hleft, hright]
    rfl
  have hl : (ofOperator op).leftColumn = .ok (.int b.left) := by
    rw [leftColumn_ofOperator, hleft]
    rfl
  have edges : Paints n (((intRange (b.left + 1) b.right).map Value.int).forM fun col ↦ do
      merge (.int b.top) col .wire
      merge (.int b.bottom) col .wire) (.ofStrokes b.edges) :=
    paints_forM fun col _ ↦ (paints_merge b.top col .wire).andThen (paints_merge b.bottom col .wire)
  have walls : Paints n (((intRange (b.top + 1) b.bottom).map Value.int).forM fun row ↦ do
      put row (.int b.left) (.glyph .line)
      put row (.int b.right) (.glyph .line)
      blank row (.int (b.left + 1)) (.int b.right)) (.ofStrokes b.walls) :=
    paints_forM fun row _ ↦ paints_wallRow row b.left b.right
  have corners := (paints_merge (n := n) b.top b.left .topLeft).andThen
    ((paints_merge b.bottom b.left .bottomLeft).andThen
      ((paints_merge b.top b.right .topRight).andThen
        (paints_merge b.bottom b.right .bottomRight)))
  have order : b.frame = b.edges ++ (b.walls ++ b.corners) := by
    rw [Box.frame, List.append_assoc]
  simp only [drawFrame, hl, hr, lift_ok_bind, Value.plus_int, Value.range_int, order]
  exact edges.andThen (walls.andThen corners)

theorem checkedRow_of_mem {wires : List Int} (h : ∀ w ∈ wires, 0 ≤ w ∧ w < n) {w : Int}
    (hw : w ∈ wires) : checkedRow n w = .ok (wireRow w) := by
  simp [checkedRow, h w hw]

theorem paints_targets (plain : op.glyphs = []) (hleft : op.column = .ok b.left)
    (hright : b.right = b.left + op.width - 1) (hwires : ∀ w ∈ op.targets, 0 ≤ w ∧ w < n) :
    Paints n (ofOperator op).drawTargets
      (.ofStrokes (b.targetMarks (decide (0 < op.controlCount)) op.targets)) := by
  have hr : (ofOperator op).rightColumn = .ok (.int b.right) := by
    rw [rightColumn_ofOperator, Operator.columns, hleft, hright]
    rfl
  have hl : (ofOperator op).leftColumn = .ok (.int b.left) := by
    rw [leftColumn_ofOperator, hleft]
    rfl
  simp only [drawTargets, hl, hr, lift_ok_bind, targets_ofOperator, Operator.map_written plain,
    hasControls_ofOperator, Value.plus_int]
  refine paints_forM fun wire hwire ↦ paints_rowOf (checkedRow_of_mem hwires hwire) ?_
  by_cases hc : 0 < op.controlCount
  · simp only [hc, decide_true, if_true]
    exact (paints_mark _ b.left .leftWall).andThen ((paints_mark _ b.right .rightWall).andThen
      (paints_put (wireRow wire) (b.left + 1) (.ofChar '>')))
  · simp only [hc, decide_false, Bool.false_eq_true, if_false]
    exact (paints_mark _ b.left .leftWall).andThen ((paints_mark _ b.right .rightWall).andThen
      paints_pure)

theorem paints_innerControls (plain : op.glyphs = []) (hleft : op.column = .ok b.left)
    (hright : b.right = b.left + op.width - 1) (hwires : ∀ w ∈ op.controls, 0 ≤ w ∧ w < n) :
    Paints n (ofOperator op).drawInnerControls (.ofStrokes (b.controlMarks op.controls)) := by
  have hr : (ofOperator op).rightColumn = .ok (.int b.right) := by
    rw [rightColumn_ofOperator, Operator.columns, hleft, hright]
    rfl
  have hl : (ofOperator op).leftColumn = .ok (.int b.left) := by
    rw [leftColumn_ofOperator, hleft]
    rfl
  simp only [drawInnerControls, hl, hr, lift_ok_bind, controls_ofOperator,
    Operator.map_written plain, Value.plus_int]
  refine paints_forM fun wire hwire ↦ paints_rowOf (checkedRow_of_mem hwires hwire) ?_
  exact (paints_mark _ b.left .leftWall).andThen
    ((paints_mark _ (b.left + 1) .dot).andThen (paints_mark _ b.right .rightWall))

theorem paints_label (hleft : op.column = .ok b.left) (offset : Int) (label : String) :
    Paints n ((ofOperator op).drawLabel (.int b.top) (.int b.bottom) offset (.text label))
      (.ofStrokes (b.labelStrokes (b.left + offset) label)) := by
  have hl : (ofOperator op).leftColumn = .ok (.int b.left) := by
    rw [leftColumn_ofOperator, hleft]
    rfl
  simp only [drawLabel, hl, lift_ok_bind, Value.plus_int, Value.halved_int]
  exact paints_write b.labelRow (b.left + offset) label

/-! ## Controls outside -/

theorem isAbove_int (row other : Int) :
    isAbove (.int row) (.int other) = .ok (decide (row < other)) := by
  simp only [isAbove, Value.isLess?_int]

theorem paints_control (col row top bottom : Int) :
    Paints n (drawControl (.int col) (.int row) (.int top) (.int bottom))
      (.ofStrokes (controlStrokes col row top bottom)) := by
  simp only [drawControl, isAbove_int, lift_ok_bind, Value.plus_int, controlStrokes]
  by_cases h : row < top
  · simp only [h, decide_true, if_true]
    exact (paints_mark row col .dot).andThen (paints_line col (row + 1) top)
  · simp only [h, decide_false, Bool.false_eq_true, if_false]
    exact (paints_mark row col .dot).andThen (paints_line col (bottom + 1) row)

theorem paints_outerControls (plain : op.glyphs = []) (hleft : op.column = .ok b.left) :
    Paints n ((ofOperator op).drawOuterControls (.int b.top) (.int b.bottom))
      (controlSketch n (b.attachStrokes (op.columnsFrom b.left).2.1) op.controls) := by
  have hm : (ofOperator op).midColumn = .ok (.int (op.columnsFrom b.left).2.1) := by
    rw [midColumn_ofOperator, Operator.columns, hleft]
    rfl
  simp only [drawOuterControls, hm, lift_ok_bind, controls_ofOperator, Operator.map_written plain]
  refine paints_controlSketch (fun row ↦ ?_) op.controls
  by_cases h : row < b.top
  · simp only [isAbove_int, lift_ok_bind, h, decide_true, if_true, Box.attachStrokes]
    exact (paints_control _ row b.top b.bottom).andThen (paints_mark b.top _ .topEdge)
  · simp only [isAbove_int, lift_ok_bind, h, decide_false, Bool.false_eq_true, if_false,
      Box.attachStrokes]
    exact (paints_control _ row b.top b.bottom).andThen (paints_mark b.bottom _ .bottomEdge)

/-! ## The three shapes -/

/-- A box that has rows and columns. -/
theorem box_eq_ok {wires : List Int} {top bottom left : Int}
    (hrows : Operator.boxRows n wires = .ok (top, bottom)) (hleft : op.column = .ok left) :
    op.box n wires = .ok ⟨top, bottom, left, left + op.width - 1⟩ := by
  simp [Operator.box, hrows, Operator.columns, hleft, bind, Except.bind, Except.map,
    Operator.columnsFrom]

theorem paints_plainBox (plain : op.glyphs = []) (label : String) :
    Paints n ((ofOperator op).drawPlainBox (.text label))
      (.ofExcept (op.plainBoxSketch n label)) := by
  have hwires : (ofOperator op).wires = op.wires.map .int := Operator.map_written plain op.wires
  rw [drawPlainBox, hwires]
  refine paints_boxRows (fun rows hrows ↦ ?_) fun fault hrows ↦ ?_
  · have exist := wires_of_boxRows hrows
    cases hleft : op.column with
    | error fault =>
      have hl : (ofOperator op).leftColumn = .error fault := by
        rw [leftColumn_ofOperator, hleft]
        rfl
      simp only [drawFrame, hl, lift_error_bind, throw_bind]
      simp [Operator.plainBoxSketch, Operator.box, hrows, Operator.columns, hleft, bind,
        Except.bind, Except.map, Sketch.ofExcept, paints_throw]
    | ok left =>
      let b : Box := ⟨rows.1, rows.2, left, left + op.width - 1⟩
      have frame := paints_frame (n := n) (b := b) hleft rfl
      have targets := paints_targets (n := n) (b := b) plain hleft rfl fun w hw ↦
        exist w (Position.mem_of_mem_slice hw)
      have controls := paints_innerControls (n := n) (b := b) plain hleft rfl fun w hw ↦
        exist w (Position.mem_of_mem_slice hw)
      have hb : op.box n op.wires = .ok b := box_eq_ok hrows hleft
      have hs : op.plainBoxSketch n label = .ok (.ofStrokes (b.frame ++
          b.targetMarks (decide (0 < op.controlCount)) op.targets ++ b.controlMarks op.controls ++
            b.labelStrokes (b.left + 1 + if decide (0 < op.controlCount) then 1 else 0)
              label)) := by
        rw [Operator.plainBoxSketch, hb]
        rfl
      rw [hs]
      simp only [hasControls_ofOperator, lift_ok_bind, Sketch.ofExcept, List.append_assoc]
      by_cases hc : 0 < op.controlCount
      · have written := paints_label (n := n) (b := b) hleft 2 label
        have h2 : b.left + 1 + 1 = b.left + 2 := by omega
        simp only [hc, decide_true, if_true, h2] at targets ⊢
        exact frame.andThen (targets.andThen (controls.andThen written))
      · have written := paints_label (n := n) (b := b) hleft 1 label
        simp only [hc, decide_false, Bool.false_eq_true, if_false, Int.add_zero] at targets ⊢
        exact frame.andThen (targets.andThen (controls.andThen written))
  · simp [Operator.plainBoxSketch, Operator.box, hrows, bind, Except.bind, Sketch.ofExcept]

theorem paints_controlledBox (plain : op.glyphs = []) (label : String) :
    Paints n ((ofOperator op).drawControlledBox (.text label))
      (.ofExcept (op.controlledBoxSketch n label)) := by
  simp only [drawControlledBox, targets_ofOperator, Operator.map_written plain, lift_ok_bind]
  refine paints_boxRows (fun rows hrows ↦ ?_) fun fault hrows ↦ ?_
  · have exist := wires_of_boxRows hrows
    cases hleft : op.column with
    | error fault =>
      have hl : (ofOperator op).leftColumn = .error fault := by
        rw [leftColumn_ofOperator, hleft]
        rfl
      simp only [drawFrame, hl, lift_error_bind, throw_bind]
      simp [Operator.controlledBoxSketch, Operator.box, hrows, Operator.columns, hleft, bind,
        Except.bind, Except.map, Sketch.ofExcept, paints_throw]
    | ok left =>
      let b : Box := ⟨rows.1, rows.2, left, left + op.width - 1⟩
      have frame := paints_frame (n := n) (b := b) hleft rfl
      have targets := paints_targets (n := n) (b := b) plain hleft rfl exist
      have controls := paints_outerControls (n := n) (b := b) plain hleft
      have written := paints_label (n := n) (b := b) hleft 1 label
      have hb : op.box n op.targets = .ok b := box_eq_ok hrows hleft
      have hcols : op.columns = .ok (op.columnsFrom left) := by
        rw [Operator.columns, hleft]
        rfl
      have hs : op.controlledBoxSketch n label = .ok (
          .ofStrokes (b.frame ++ b.targetMarks (decide (0 < op.controlCount)) op.targets) ++
            controlSketch n (b.attachStrokes (op.columnsFrom b.left).2.1) op.controls ++
              .ofStrokes (b.labelStrokes (b.left + 1) label)) := by
        rw [Operator.controlledBoxSketch, hb, hcols]
        rfl
      rw [hs, Sketch.ofExcept, ← Sketch.ofStrokes_append_ofStrokes, Sketch.append_assoc,
        Sketch.append_assoc]
      exact frame.bind (targets.bind (controls.bind written))
  · simp [Operator.controlledBoxSketch, Operator.box, hrows, bind, Except.bind, Sketch.ofExcept]

/-- What follows the look-up of the row of the wire at a place. -/
theorem paints_rowOfWireAt (plain : op.glyphs = []) {k : Nat} {f : Value → Painting Unit}
    {s : Sketch}
    (hok : ∀ row, op.wireRowAt n k = .ok row → Paints n (f (.int row)) s)
    (herror : ∀ fault, op.wireRowAt n k = .error fault → s = .fail fault) :
    Paints n ((ofOperator op).rowOfWireAt k >>= f) s := by
  have hwire : (ofOperator op).wires[k]? = op.wires[k]?.map Value.int := by
    rw [← List.getElem?_map, ← Operator.map_written plain]
    rfl
  unfold rowOfWireAt
  rw [hwire]
  cases h : op.wires[k]? with
  | none =>
    have hrow : op.wireRowAt n k = .error .noSuchPosition := by simp only [Operator.wireRowAt, h]
    rw [herror _ hrow]
    exact paints_throw _
  | some wire =>
    have hat : op.wireRowAt n k = checkedRow n wire := by simp only [Operator.wireRowAt, h]
    cases hrow : checkedRow n wire with
    | ok row => exact paints_rowOf hrow (hok row (hat.trans hrow))
    | error fault =>
      rw [herror fault (hat.trans hrow)]
      exact paints_rowOf_fail hrow

theorem paints_swap (plain : op.glyphs = []) :
    Paints n (ofOperator op).drawSwap (.ofExcept (op.swapSketch n)) := by
  cases hleft : op.column with
  | error fault =>
    have hl : (ofOperator op).leftColumn = .error fault := by
      rw [leftColumn_ofOperator, hleft]
      rfl
    simp only [drawSwap, hl, lift_error_bind]
    simp [Operator.swapSketch, hleft, bind, Except.bind, Sketch.ofExcept, paints_throw]
  | ok left =>
    have hl : (ofOperator op).leftColumn = .ok (.int left) := by
      rw [leftColumn_ofOperator, hleft]
      rfl
    simp only [drawSwap, hl, lift_ok_bind, Value.plus_int]
    refine paints_rowOfWireAt plain (fun row₀ h₀ ↦ ?_) fun fault h₀ ↦ ?_
    · refine paints_rowOfWireAt plain (fun row₁ h₁ ↦ ?_) fun fault h₁ ↦ ?_
      · have hs : op.swapSketch n = .ok (.ofStrokes (swapStrokes (left + 1) row₀ row₁) ++
            controlSketch n (fun row ↦ controlStrokes (left + 1) row row₀ row₁) op.controls) := by
          rw [Operator.swapSketch, hleft, h₀, h₁]
          rfl
        have controls : Paints n ((op.controls.map Value.int).forM fun wire ↦ rowOf wire >>=
            fun row ↦ drawControl (.int (left + 1)) row (.int row₀) (.int row₁))
              (controlSketch n (fun row ↦ controlStrokes (left + 1) row row₀ row₁) op.controls) :=
          paints_controlSketch (fun row ↦ paints_control (left + 1) row row₀ row₁) op.controls
        have crosses := (paints_mark (n := n) row₀ (left + 1) .swapMark).bind
          ((paints_line (left + 1) (row₀ + 1) row₁).bind
            ((paints_mark row₁ (left + 1) .swapMark).bind controls))
        simp only [Value.plus_int, lift_ok_bind, controls_ofOperator, Operator.map_written plain,
          hs, Sketch.ofExcept]
        rw [← Sketch.append_assoc, ← Sketch.append_assoc] at crosses
        exact crosses
      · simp [Operator.swapSketch, hleft, h₀, h₁, bind, Except.bind, Sketch.ofExcept]
    · simp [Operator.swapSketch, hleft, h₀, bind, Except.bind, Sketch.ofExcept]

theorem paints_draw (plain : op.glyphs = []) :
    Paints n (ofOperator op).draw (op.sketch n) := by
  rcases op with ⟨_ | _ | _, wires, targetCount, controlCount, column?, glyphs⟩
  · exact paints_plainBox plain _
  · exact paints_controlledBox plain _
  · exact paints_swap plain

/-- **An operator is drawn alike whether it is written down or not.** Its wires must have been
written as numbers, since a refusal names a wire the way it was written. -/
theorem draw_ofOperator (c : Canvas) {op : Operator} (plain : op.glyphs = []) :
    (ofOperator op).draw.on (.ofCanvas c) = (.ofCanvas (c.draw op).1, (c.draw op).2) := by
  have h := paints_draw (n := c.wires) plain c rfl
  simp only [Painting.on, h, Canvas.draw]
  rcases c.paint (op.sketch c.wires) with ⟨c', _ | fault⟩ <;> rfl

end OperatorDraft

end WireDiagram
