import Landscape.Chart
import Landscape.Proofs.Double.Selves
import Landscape.Proofs.Surface.Corners

namespace Landscape

section Traversal

variable {α β ε : Type} {f : α → Except ε β}

theorem exists_list_mapM {xs : List α} (h : ∀ x ∈ xs, ∃ y, f x = .ok y) : ∃ ys, xs.mapM f = .ok ys := by
  obtain ⟨ys, hys, -⟩ := exists_mapM (R := fun _ _ => True) fun x hx =>
    (h x hx).imp fun _ hy => ⟨hy, trivial⟩
  exact ⟨ys, hys⟩

theorem exists_vector_mapM {n : Nat} {xs : Vector α n} (h : ∀ x ∈ xs, ∃ y, f x = .ok y) :
    ∃ ys, xs.mapM f = .ok ys := by
  have hlist : ∀ x ∈ xs.toArray.toList, ∃ y, f x = .ok y := fun x hx =>
    h x (Vector.mem_toList_iff.mp hx)
  obtain ⟨ys, hys⟩ := exists_list_mapM hlist
  rcases hmap : xs.mapM f with e | zs
  · have harray : Vector.toArray <$> xs.mapM f = xs.toArray.mapM f := Vector.toArray_mapM
    rw [hmap, Array.mapM_eq_mapM_toList, hys] at harray
    cases harray
  · exact ⟨zs, rfl⟩

end Traversal

def Box.IsCorner (b : Box) (p : BoxPoint) : Prop :=
  ∀ k, p.get k = (b.get k).start ∨ p.get k = (b.get k).stop

namespace Box

variable {b : Box} {p q : BoxPoint}

theorem isCorner_starts (b : Box) : b.IsCorner b.starts := by
  intro k
  left
  simp [starts, Vector.get_eq_getElem]

theorem isCorner_stops (b : Box) : b.IsCorner b.stops := by
  intro k
  right
  simp [stops, Vector.get_eq_getElem]

theorem IsCorner.set (hp : b.IsCorner p) (hq : b.IsCorner q) (i : Fin 3) :
    b.IsCorner (p.set i (q.get i) i.isLt) := by
  intro k
  by_cases hk : i = k
  · subst hk
    simpa [Vector.get_eq_getElem] using hq i
  · have hne : (i : Nat) ≠ k := fun h => hk (Fin.ext h)
    simpa [Vector.get_eq_getElem, Vector.getElem_set_ne _ _ hne] using hp k

end Box

def Word.Half (n : Int) : Prop :=
  -0x40000000 ≤ n ∧ n < 0x40000000

instance (n : Int) : Decidable (Word.Half n) :=
  inferInstanceAs (Decidable (_ ∧ _))

theorem Word.exists_sum {m n : Int} (hm : Word.Half m) (hn : Word.Half n) :
    ∃ k, Word.sum m n = .ok k := by
  obtain ⟨hm, hm'⟩ := hm
  obtain ⟨hn, hn'⟩ := hn
  exact ⟨m + n, if_pos (by omega)⟩

/-- A point whose depth and whose place down the canvas take half a word at most. -/
structure View.Reaches (v : View) (p : BoxPoint) : Prop where
  depth : Word.Half (v.depth p)
  level : Word.Half (v.project p).y

namespace Frame

variable {v : View} {panels : Vector Panel 3} {e : Edge} {i : Fin 3}

theorem isCorner_panel (v : View) (i : Fin 3) :
    v.box.IsCorner (panel v i).first ∧ v.box.IsCorner (panel v i).last := by
  have ha := v.box.isCorner_starts
  have hd := v.box.isCorner_stops
  unfold panel
  dsimp only
  split
  · exact ⟨ha.set hd i, hd⟩
  · exact ⟨ha, hd.set ha i⟩

theorem isCorner_edge
    (h : ∀ k, v.box.IsCorner (panels.get k).first ∧ v.box.IsCorner (panels.get k).last)
    (he : e ∈ edges v panels i) : v.box.IsCorner e.start ∧ v.box.IsCorner e.stop := by
  simp only [edges, List.mem_flatMap, List.mem_map] at he
  obtain ⟨p, -, j, -, corner, hcorner, rfl⟩ := he
  have hcorner' : v.box.IsCorner corner := by
    simp only [List.mem_cons, List.not_mem_nil, or_false] at hcorner
    rcases hcorner with rfl | rfl
    · exact (h p).1
    · exact (h p).2
  exact ⟨(v.box.isCorner_starts.set (h p).1 p).set hcorner' j,
    (v.box.isCorner_stops.set (h p).1 p).set hcorner' j⟩

theorem exists_placed (hstart : v.Reaches e.start) (hstop : v.Reaches e.stop) :
    ∃ placed, e.placed v = .ok placed := by
  obtain ⟨depth, hdepth⟩ := Word.exists_sum hstart.depth hstop.depth
  obtain ⟨level, hlevel⟩ := Word.exists_sum hstart.level hstop.level
  refine ⟨⟨e, depth, level⟩, ?_⟩
  rw [Edge.placed, hdepth, hlevel]
  rfl

theorem exists_nearest {es : List Edge} (h : ∀ e ∈ es, v.Reaches e.start ∧ v.Reaches e.stop) :
    ∃ e, nearest v es = .ok e := by
  obtain ⟨placed, hplaced⟩ := exists_list_mapM fun e he => exists_placed (h e he).1 (h e he).2
  rw [nearest, hplaced]
  cases placed <;> exact ⟨_, rfl⟩

/-- The frame can be drawn if no corner of the box lies too far off. -/
theorem exists_marks (hcorners : ∀ p, v.box.IsCorner p → v.Reaches p) (grid : Grid) (color : Color) :
    ∃ marks, Frame.marks v grid color = .ok marks := by
  have hpanels : ∀ k, v.box.IsCorner ((Vector.ofFn (panel v)).get k).first ∧
      v.box.IsCorner ((Vector.ofFn (panel v)).get k).last := by
    intro k
    simpa [Vector.get_eq_getElem] using isCorner_panel v k
  have haxis (i : Fin 3) : ∃ marks, axisMarks v (.ofFn (panel v)) grid i = .ok marks := by
    have hedges : ∀ e ∈ edges v (.ofFn (panel v)) i, v.Reaches e.start ∧ v.Reaches e.stop :=
      fun e he => ⟨hcorners _ (isCorner_edge hpanels he).1, hcorners _ (isCorner_edge hpanels he).2⟩
    obtain ⟨edge, hedge⟩ := exists_nearest hedges
    rw [axisMarks, hedge]
    exact ⟨_, rfl⟩
  obtain ⟨marks, hmarks⟩ := exists_list_mapM fun i (_ : i ∈ axes) => haxis i
  rw [Frame.marks, hmarks]
  exact ⟨_, rfl⟩

end Frame

theorem Ticks.exists_values {axis : Span} (h : axis.start.isNaN = false) (limit : Nat) :
    ∃ values, Ticks.values axis limit = .ok values := by
  rw [Ticks.values, h]
  simp only [Bool.false_and, Bool.false_eq_true, if_false]
  split
  · exact ⟨_, rfl⟩
  · exact ⟨_, rfl⟩

theorem Frame.exists_gridOf {box : Box} (h : ∀ bounds ∈ box, bounds.start.isNaN = false) :
    ∃ grid, Frame.gridOf box = .ok grid := by
  obtain ⟨bold, hbold⟩ := exists_vector_mapM fun bounds hmem => Ticks.exists_values (h bounds hmem) 10
  obtain ⟨light, hlight⟩ := exists_vector_mapM fun bounds hmem => Ticks.exists_values (h bounds hmem) 100
  refine ⟨⟨light, bold⟩, ?_⟩
  rw [Frame.gridOf, hbold, hlight]
  rfl

end Landscape
