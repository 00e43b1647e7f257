import WireDiagram.Value

/-!
# Wires as values

A wire is a number, but it may be written as a glyph, which then stands for the wire of its rank.
Nothing that is computed from a wire depends on the way it was written; only a message that names it
shows it the way it was.

## What has to be remembered

In a list that names no wire twice, the numbers together with the glyphs among them tell how each
wire was written (`Value.map_ofWire_glyphs`). So wires are kept as numbers, with the glyphs beside
them.
-/

namespace WireDiagram.Value

/-- The glyphs among some values. -/
def glyphs (vs : List Value) : List Glyph :=
  vs.filterMap fun v ↦ match v with
    | .glyph g => some g
    | _ => none

/-- The value that a wire was written as, when `glyphs` are the glyphs that wires were written as.
-/
def ofWire (glyphs : List Glyph) (wire : Int) : Value :=
  match glyphs.find? fun g ↦ (g.rank : Int) == wire with
  | some g => .glyph g
  | none => .int wire

theorem map_ofWire_nil (wires : List Int) : wires.map (ofWire []) = wires.map .int := rfl

/-- Whichever way a wire was written, it is the same number. -/
theorem integer?_ofWire (glyphs : List Glyph) (wire : Int) :
    (ofWire glyphs wire).integer? = some wire := by
  unfold ofWire
  split
  · rename_i g h
    have hg := List.find?_some h
    simpa [integer?] using hg
  · rfl

theorem mem_glyphs {g : Glyph} {vs : List Value} : g ∈ glyphs vs ↔ .glyph g ∈ vs := by
  simp only [glyphs, List.mem_filterMap]
  constructor
  · rintro ⟨v, hv, h⟩
    cases v <;> simp_all
  · intro h
    exact ⟨_, h, rfl⟩

theorem ofWire_of_mem {gs : List Glyph} {g : Glyph} (h : g ∈ gs) :
    ofWire gs g.rank = .glyph g := by
  unfold ofWire
  split
  · rename_i g' hfind
    have hrank : (g'.rank : Int) = g.rank := by simpa using List.find?_some hfind
    rw [Glyph.rank_injective (by omega : g'.rank = g.rank)]
  · rename_i hfind
    have := List.find?_eq_none.1 hfind g h
    simp at this

theorem ofWire_of_forall_ne {gs : List Glyph} {wire : Int}
    (h : ∀ g ∈ gs, (g.rank : Int) ≠ wire) : ofWire gs wire = .int wire := by
  unfold ofWire
  rw [List.find?_eq_none.2 fun g hg ↦ by simpa using h g hg]

/-! ## Lists of wires -/

/-- Whether a value is written as a wire is. -/
def isWire : Value → Bool
  | .int _ => true
  | .glyph _ => true
  | _ => false

/-- **Numbers and glyphs tell how wires were written.** If no wire is written twice in a list, its
numbers and the glyphs in it determine the list. -/
theorem map_ofWire_glyphs {vs : List Value} {wires : List Int} (hwire : ∀ v ∈ vs, v.isWire)
    (h : vs.map integer? = wires.map some) (hnodup : wires.Nodup) :
    wires.map (ofWire (glyphs vs)) = vs := by
  have unique {l : List Value} (hl : (l.map integer?).Nodup) {v w : Value} (hv : v ∈ l)
      (hw : w ∈ l) (e : v.integer? = w.integer?) : v = w := by
    induction l with
    | nil => cases hv
    | cons u l ih =>
      simp only [List.map_cons, List.nodup_cons, List.mem_map, not_exists, not_and] at hl
      rcases List.mem_cons.1 hv with hv' | hv' <;> rcases List.mem_cons.1 hw with hw' | hw'
      · rw [hv', hw']
      · exact absurd (hv' ▸ e.symm) (hl.1 w hw')
      · exact absurd (hw' ▸ e) (hl.1 v hv')
      · exact ih hl.2 hv' hw'
  have hvs : (vs.map integer?).Nodup := by
    rw [h]
    exact List.pairwise_map.2 (hnodup.imp fun hne e ↦ hne (Option.some.inj e))
  have key : ∀ v ∈ vs, ∀ w, v.integer? = some w → ofWire (glyphs vs) w = v := by
    intro v hv w hw
    cases v with
    | glyph g =>
      cases hw
      exact ofWire_of_mem (mem_glyphs.2 hv)
    | int n =>
      cases hw
      refine ofWire_of_forall_ne fun g hg e ↦ ?_
      have := unique hvs (mem_glyphs.1 hg) hv (by simp [integer?, e])
      cases this
    | _ => simpa [isWire] using hwire _ hv
  generalize glyphs vs = gs at key
  clear hvs hnodup hwire
  induction vs generalizing wires with
  | nil => simpa using h.symm
  | cons v vs ih => cases wires with
    | nil => simp at h
    | cons w wires =>
      simp only [List.map_cons, List.cons.injEq] at h
      rw [List.map_cons, key v List.mem_cons_self w h.1,
        ih h.2 fun u hu ↦ key u (List.mem_cons_of_mem v hu)]

end WireDiagram.Value
