import Landscape.Proofs.Chart.Frames

namespace Landscape
open Double

/-- Where the ends of an axis can lie on the edge of the cube: at either end, or in the middle if the axis is
flat. -/
def places : List Int := [0, 211, 422]

theorem Span.place_eq {s : Span} {value t : Float} (hflat : (s.stop == s.start) = false)
    (ht : (value - s.start) / (s.stop - s.start) = t) : s.place 422 value =
      if t.isInf then if 0.0 < t then 422 else 0
      else Double.toInt (Double.floor (Double.ofInt 422 * t + 1e-3)) := by
  rw [place, hflat, ht]
  rfl

theorem Span.place_start (s : Span) : s.place 422 s.start ∈ places := by
  cases hflat : s.stop == s.start with
  | true =>
    rw [place, if_pos hflat]
    decide
  | false =>
    -- The start lies no distance from itself, whatever the axis.
    have hshare : (s.start - s.start) / (s.stop - s.start) ∈ [0.0, -0.0, Float.nan] := by
      rcases sub_self_eq s.start with h | h
      · rw [h]
        simpa using zero_div_eq (s.stop - s.start)
      · rw [h, nan_div]
        simp
    simp only [List.mem_cons, List.not_mem_nil, or_false] at hshare
    rcases hshare with h | h | h
    · rw [place_eq hflat h]
      decide +kernel
    · rw [place_eq hflat h]
      decide +kernel
    · rw [place_eq hflat h]
      decide +kernel

theorem Span.place_stop (s : Span) : s.place 422 s.stop ∈ places := by
  cases hflat : s.stop == s.start with
  | true =>
    rw [place, if_pos hflat]
    decide
  | false =>
    rcases div_self_eq (s.stop - s.start) with h | h
    · rw [place_eq hflat h]
      decide +kernel
    · rw [place_eq hflat h]
      decide +kernel

/-- How far down the canvas and how deep the corners of the cube are seen. -/
theorem reaches_places : ∀ x ∈ places, ∀ y ∈ places, ∀ z ∈ places, ∀ r ∈ ([1, 2] : List (Fin 4)),
    Word.Half ((View.turn 422 ⟨350, 316⟩).coordinate r
      #v[Double.ofInt x, Double.ofInt y, Double.ofInt z]) := by
  decide +kernel

def View.ofCanvas (box : Box) : View :=
  ⟨⟨20, 52, 680, 580⟩, box, 422, ⟨350, 316⟩, View.turn 422 ⟨350, 316⟩⟩

@[simp] theorem View.ofCanvas_cube (box : Box) : (View.ofCanvas box).cube = 422 := rfl

@[simp] theorem View.ofCanvas_matrix (box : Box) :
    (View.ofCanvas box).matrix = View.turn 422 ⟨350, 316⟩ := by
  rw [View.ofCanvas]

theorem ofFn_three {α : Type} (f : Fin 3 → α) : Vector.ofFn f = #v[f 0, f 1, f 2] := rfl

theorem View.reaches_of_corner {v : View} {p : BoxPoint} (hcube : v.cube = 422)
    (hmatrix : v.matrix = View.turn 422 ⟨350, 316⟩) (hp : v.box.IsCorner p) : v.Reaches p := by
  have hplace (k : Fin 3) : (v.box.get k).place v.cube (p.get k) ∈ places := by
    rw [hcube]
    rcases hp k with h | h
    · rw [h]
      exact Span.place_start _
    · rw [h]
      exact Span.place_stop _
  have hreach := reaches_places _ (hplace 0) _ (hplace 1) _ (hplace 2)
  rw [← hmatrix, ← ofFn_three fun k => Double.ofInt ((v.box.get k).place v.cube (p.get k))] at hreach
  exact ⟨hreach 2 (by simp), hreach 1 (by simp)⟩

theorem bind_of_ok {ε α β : Type} {x : Except ε α} {a : α} (h : x = .ok a) (f : α → Except ε β) :
    (x >>= f) = f a := by
  rw [h]
  rfl

theorem orCrash_bind {α β : Type} {x : Except Fault α} {a : α} (h : x = .ok a)
    (f : α → Except Failure β) : (orCrash x >>= f) = f a := by
  rw [h]
  rfl

/-- On the default canvas every box of numbers and every surface can be drawn. -/
theorem Chart.exists_of {m : Mesh} {relief : Relief} {stride : Nat} {box : Box} {ps : List Patch}
    (hbox : Chart.box m relief = .ok box) (hnumbers : ∀ bounds ∈ box, bounds.start.isNaN = false)
    (hpatches : patches m relief stride = .ok ps) (theme : Theme) :
    ∃ chart, Chart.of .blank 700 600 stride m relief theme = .ok chart := by
  obtain ⟨grid, hgrid⟩ := Frame.exists_gridOf hnumbers
  obtain ⟨marks, hmarks⟩ := Frame.exists_marks (v := View.ofCanvas box)
    (fun p hp => View.reaches_of_corner (View.ofCanvas_cube box) (View.ofCanvas_matrix box) hp) grid
    theme.foreground
  have harea : Area.inside 700 600 = .ok ⟨20, 20, 680, 580⟩ := rfl
  have hcaption : (Typeface.blank.set title).mapError
      (fun e => Failure.problem (.notDrawn theme e)) = .ok ⟨22, []⟩ := rfl
  have hbelow : Area.below ⟨20, 20, 680, 580⟩ 22 = .ok ⟨20, 52, 680, 580⟩ := rfl
  have hview : View.ofArea ⟨20, 52, 680, 580⟩ box = .ok (View.ofCanvas box) := by
    have hcube : Area.cube ⟨20, 52, 680, 580⟩ = .ok 422 := rfl
    have hcentre : Area.centre ⟨20, 52, 680, 580⟩ = .ok ⟨350, 316⟩ := rfl
    rw [View.ofArea, hcube, hcentre]
    rfl
  refine ⟨⟨[], marks, ps.map (·.mark theme relief (View.ofCanvas box))⟩, ?_⟩
  rw [Chart.of, orCrash_bind hbox, orCrash_bind harea, bind_of_ok hcaption, orCrash_bind hbelow,
    orCrash_bind hview, orCrash_bind hgrid, orCrash_bind hmarks, orCrash_bind hpatches]
  rfl

end Landscape
