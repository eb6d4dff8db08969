import Landscape.Proofs.Surface.Corners

namespace Landscape

def Block.Contains (b : Block) (p q : Nat) : Prop :=
  b.rows.Contains p ∧ b.columns.Contains q

/-- The blocks cut a square of `cells` by `cells` unit cells: none is empty or reaches beyond the
square, and every cell lies in one of them, at one place of the list. -/
structure Tiles (cells : Nat) (bs : List Block) : Prop where
  within : ∀ b ∈ bs, b.Within cells
  covers_once : ∀ p < cells, ∀ q < cells, ∃! k : Nat, ∃ b : Block, bs[k]? = some b ∧ b.Contains p q

/-- Place `i * n + j` of all pairs is held by the pair of entry `i` and entry `j` of `n`. -/
theorem getElem?_flatMap_map {α β γ : Type} (f : α → β → γ) (xs : List α) (ys : List β) (i : Nat)
    {j : Nat} (hj : j < ys.length) :
    (xs.flatMap fun x => ys.map (f x))[i * ys.length + j]? = xs[i]?.map (f · ys[j]) := by
  induction xs generalizing i with
  | nil => rfl
  | cons x xs ih =>
    rw [List.flatMap_cons]
    -- The first row holds the first `ys.length` places, and the rest is shifted by as many.
    cases i with
    | zero =>
      rw [Nat.zero_mul, Nat.zero_add, List.getElem?_append_left (by simpa using hj)]
      simp [hj]
    | succ i =>
      have hlen : (i + 1) * ys.length + j = (ys.map (f x)).length + (i * ys.length + j) := by
        rw [List.length_map, Nat.succ_mul]
        omega
      rw [hlen, List.getElem?_append_right (Nat.le_add_right _ _), Nat.add_sub_cancel_left, ih]
      rfl

theorem length_flatMap_map {α β γ : Type} (f : α → β → γ) (xs : List α) (ys : List β) :
    (xs.flatMap fun x => ys.map (f x)).length = xs.length * ys.length := by
  simp [List.length_flatMap]

theorem exists_row_column {n k : Nat} (hk : k < n * n) : ∃ i < n, ∃ j < n, k = i * n + j := by
  have hn : 0 < n := Nat.pos_of_mul_pos_left (Nat.zero_lt_of_lt hk)
  refine ⟨k / n, (Nat.div_lt_iff_lt_mul hn).mpr hk, k % n, Nat.mod_lt k hn, ?_⟩
  rw [Nat.mul_comm]
  exact (Nat.div_add_mod k n).symm

theorem exists_blocks {size stride : Nat} (hsize : 1 ≤ size) (hstride : 1 ≤ stride) :
    let count := (size - 1) ⌈/⌉ stride
    let line := line (size - 1) stride
    ∃ bs, blocks size stride = .ok bs ∧ bs.length = count * count ∧
      ∀ i < count, ∀ j < count,
        bs[i * count + j]? = some ⟨⟨line i, line (i + 1)⟩, ⟨line j, line (j + 1)⟩⟩ := by
  intro count line
  have hlen : (strips (size - 1) stride).length = count := length_strips hstride _
  refine ⟨(strips (size - 1) stride).flatMap fun rows =>
    (strips (size - 1) stride).map fun columns => ⟨rows, columns⟩, ?_, ?_, ?_⟩
  · rw [blocks, if_neg (by omega), if_neg (by omega)]
  · rw [length_flatMap_map, hlen]
  · intro i hi j hj
    have hcolumn := getElem?_strips hstride hj
    rw [List.getElem?_eq_some_iff] at hcolumn
    obtain ⟨hj', hcolumn⟩ := hcolumn
    rw [← hlen, getElem?_flatMap_map Block.mk _ _ i hj', getElem?_strips hstride hi, hcolumn]
    rfl

/-- Rows and columns of a block are strips. -/
theorem strips_of_mem_blocks {size stride : Nat} {bs : List Block} {b : Block}
    (h : blocks size stride = .ok bs) (hb : b ∈ bs) :
    b.rows ∈ strips (size - 1) stride ∧ b.columns ∈ strips (size - 1) stride := by
  unfold blocks at h
  split at h
  · cases h
  · split at h
    · cases h
    · cases h
      obtain ⟨rows, hrows, hb⟩ := List.mem_flatMap.mp hb
      obtain ⟨columns, hcolumns, rfl⟩ := List.mem_map.mp hb
      exact ⟨hrows, hcolumns⟩

theorem blocks_tile {size stride : Nat} (hsize : 1 ≤ size) (hstride : 1 ≤ stride) :
    ∃ bs, blocks size stride = .ok bs ∧ Tiles (size - 1) bs := by
  obtain ⟨bs, hbs, hlen, hget⟩ := exists_blocks hsize hstride
  refine ⟨bs, hbs, ⟨?_, ?_⟩⟩
  · intro b hb
    obtain ⟨k, hk⟩ := List.mem_iff_getElem?.mp hb
    have hk' : k < bs.length := (List.getElem?_eq_some_iff.mp hk).1
    obtain ⟨i, hi, j, hj, rfl⟩ := exists_row_column (hlen ▸ hk')
    rw [hget i hi j hj] at hk
    cases hk
    exact ⟨strip_within hstride hi, strip_within hstride hj⟩
  · intro p hp q hq
    have hi := div_lt_ceilDiv hstride hp
    have hj := div_lt_ceilDiv hstride hq
    refine ⟨p / stride * ((size - 1) ⌈/⌉ stride) + q / stride, ?_, ?_⟩
    · exact ⟨_, hget _ hi _ hj, (contains_strip_iff hstride hp _).mpr rfl,
        (contains_strip_iff hstride hq _).mpr rfl⟩
    · -- A block that contains the cell has the row and the column of its quotients.
      rintro k ⟨b, hk, hrow, hcolumn⟩
      have hk' : k < bs.length := (List.getElem?_eq_some_iff.mp hk).1
      obtain ⟨i, hi, j, hj, rfl⟩ := exists_row_column (hlen ▸ hk')
      rw [hget i hi j hj] at hk
      cases hk
      rw [(contains_strip_iff hstride hp i).mp hrow, (contains_strip_iff hstride hq j).mp hcolumn]

/-- The patches of a relief over a mesh belong to blocks that tile the cells of the mesh. -/
theorem patches_tile (m : Mesh) (r : Relief) (stride : Nat) (hsize : 1 ≤ m.size)
    (hshape : r.size = m.size) (hstride : 1 ≤ stride) :
    ∃ bs ps, blocks m.size stride = .ok bs ∧ patches m r stride = .ok ps ∧
      List.Forall₂ (fun b p => p.Spans m r b) bs ps ∧ Tiles (m.size - 1) bs := by
  obtain ⟨bs, hbs, htiles⟩ := blocks_tile hsize hstride
  obtain ⟨ps, hps, hspans⟩ := exists_patches hshape hbs htiles.within (by omega)
  exact ⟨bs, ps, hbs, hps, hspans, htiles⟩

/-- Five cells under a stride of four: the last row and column of blocks are one cell wide. -/
theorem patches_tile_clamped :
    let m := Mesh.ofSpans ⟨-0.5, 0.5⟩ ⟨-1.5, 1.5⟩ 6
    let r := Relief.ofMesh m
    (1 ≤ m.size ∧ r.size = m.size ∧ 1 ≤ 4) ∧
      ∃ bs ps, blocks 6 4 = .ok bs ∧ patches m r 4 = .ok ps ∧
        List.Forall₂ (fun b p => p.Spans m r b) bs ps ∧ Tiles 5 bs := by
  intro m r
  have hsize : 1 ≤ m.size := by decide
  exact ⟨⟨hsize, rfl, by decide⟩, patches_tile m r 4 hsize rfl (by decide)⟩

end Landscape
