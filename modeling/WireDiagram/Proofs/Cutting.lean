import WireDiagram.Page

/-!
# Cutting rows into pages

The columns at which pages end go up from one page to the next, and end with the last column
(`PageBudget.ascends_cuts`); only the first page may be without columns. So what stands on the pages
of a row is the row itself, in order: consecutive slices of a list make up a slice
(`Position.slice_append`).
-/

namespace WireDiagram

/-! ## Slices -/

namespace Position

variable {α : Type}

theorem clamp_mono {n : Nat} {i j : Int} (hi : 0 ≤ i) (hij : i ≤ j) : clamp n i ≤ clamp n j := by
  rw [clamp, clamp, if_pos hi, if_pos (by omega)]
  omega

/-- **Consecutive slices make up a slice.** -/
theorem slice_append {xs : List α} {start mid stop : Int} (hstart : 0 ≤ start) (hmid : start ≤ mid)
    (hstop : mid ≤ stop) : slice xs start mid ++ slice xs mid stop = slice xs start stop := by
  have h₁ := clamp_mono (n := xs.length) hstart hmid
  have h₂ := clamp_mono (n := xs.length) (by omega) hstop
  have h₃ := clamp_le xs.length mid
  rw [slice, slice, slice]
  generalize clamp xs.length start = a at h₁
  generalize clamp xs.length mid = b at h₁ h₂ h₃
  generalize clamp xs.length stop = c at h₂
  have htake : (xs.take c).take b = xs.take b := by
    rw [List.take_take, Nat.min_eq_left h₂]
  have hsplit : xs.take c = xs.take b ++ (xs.take c).drop b := by
    rw [← htake, List.take_append_drop]
  calc
    (xs.take b).drop a ++ (xs.take c).drop b = (xs.take b ++ (xs.take c).drop b).drop a := by
      rw [List.drop_append_of_le_length (by rw [List.length_take]; omega)]
    _ = (xs.take c).drop a := by rw [← hsplit]

theorem slice_zero_length (xs : List α) : slice xs 0 xs.length = xs := by
  have h : slice xs ((0 : Nat) : Int) (xs.length : Int) = (xs.take xs.length).drop 0 :=
    slice_natCast (Nat.zero_le _) (Nat.le_refl _)
  rw [List.take_length, List.drop_zero] at h
  exact h

theorem length_slice {xs : List α} {start stop : Int} (hstart : 0 ≤ start) (hle : start ≤ stop)
    (hstop : stop ≤ xs.length) : ((slice xs start stop).length : Int) = stop - start := by
  rw [slice, List.length_drop, List.length_take, clamp, clamp, if_pos (by omega), if_pos hstart]
  omega

end Position

/-! ## Cuts -/

/-- Whether pages that start in column `start` and end at given columns go on to the right up to
column `width`. Only the first page may be without columns. -/
def Ascends (width : Int) : Bool → Int → List Int → Prop
  | _, start, [] => start = width
  | isFirst, start, stop :: stops =>
    (start < stop ∨ isFirst = true ∧ start = stop) ∧ Ascends width false stop stops

theorem Ascends.start_le {width : Int} {stops : List Int} :
    ∀ {isFirst : Bool} {start : Int}, Ascends width isFirst start stops → start ≤ width := by
  induction stops with
  | nil =>
    intro isFirst start h
    exact Int.le_of_eq h
  | cons stop stops ih =>
    rintro isFirst start ⟨hstop, hrest⟩
    have := ih hrest
    omega

theorem PageBudget.ascends_cutsFrom (b : PageBudget) {widths : List Int} :
    ∀ {isFirst : Bool} {start : Int} (col used : Int), (∀ w ∈ widths, 0 < w) →
      (start < col ∨ isFirst = true ∧ start = col) →
      Ascends (widths.foldl (· + ·) col) isFirst start (b.cutsFrom col used widths) := by
  induction widths with
  | nil =>
    intro isFirst start col used _ hcol
    exact ⟨hcol, rfl⟩
  | cons w widths ih =>
    intro isFirst start col used hpos hcol
    have hw := hpos w List.mem_cons_self
    have hrest : ∀ w ∈ widths, 0 < w := fun w' hw' ↦ hpos w' (List.mem_cons_of_mem w hw')
    rw [List.foldl_cons, cutsFrom]
    split
    · exact ⟨hcol, ih _ _ hrest (Or.inl (by omega))⟩
    · exact ih _ _ hrest (Or.inl (by omega))

/-- **Pages go on to the right**, up to the width of all layers. -/
theorem PageBudget.ascends_cuts (b : PageBudget) {widths : List Int} (h : ∀ w ∈ widths, 0 < w)
    (labelWidth : Int) : Ascends (totalWidth widths) true 0 (b.cuts widths labelWidth) :=
  b.ascends_cutsFrom 0 labelWidth h (Or.inr ⟨rfl, rfl⟩)

end WireDiagram
