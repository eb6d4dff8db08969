import Landscape.Proofs.Settings.Check
import Landscape.Proofs.Surface.Seams

namespace Landscape

section Traversal

variable {α β ε : Type} {f g : α → Except ε β} {xs : List α}

theorem mapM_congr (h : ∀ x ∈ xs, f x = g x) : xs.mapM f = xs.mapM g := by
  induction xs with
  | nil => rfl
  | cons x xs ih =>
    rw [List.mapM_cons, List.mapM_cons, h x List.mem_cons_self,
      ih fun y hy => h y (List.mem_cons_of_mem x hy)]

/-- A traversal fails as the first element does for which it fails. -/
theorem mapM_eq_error {k : Nat} {x : α} {e : ε} (hx : xs[k]? = some x) (hfails : f x = .error e)
    (hbefore : ∀ i < k, ∀ y, xs[i]? = some y → ∃ b, f y = .ok b) : xs.mapM f = .error e := by
  induction xs generalizing k with
  | nil => cases hx
  | cons y xs ih =>
    rw [List.mapM_cons]
    cases k with
    | zero =>
      cases hx
      rw [hfails]
      rfl
    | succ k =>
      obtain ⟨b, hb⟩ := hbefore 0 (Nat.succ_pos k) y rfl
      rw [hb, ih hx fun i hi => hbefore (i + 1) (Nat.succ_lt_succ hi)]
      rfl

end Traversal

variable {m : Mesh} {r r' : Relief} {i j k stride cells : Nat}

/-- Inside the mesh a surface point is looked up as its height is. -/
theorem vertexAt_eq (r : Relief) (hi : i < m.size) (hj : j < m.size) :
    vertexAt m r i j =
      (r.heightAt i j).map fun height => ⟨m.real.get ⟨j, hj⟩, height, m.imaginary.get ⟨i, hi⟩⟩ := by
  rw [vertexAt, Mesh.point_eq, dif_pos ⟨hi, hj⟩]
  cases r.heightAt i j <;> rfl

theorem vertexAt_eq_error (hi : i < m.size) (hj : j < m.size) (h : ¬ (i < r.size ∧ j < r.size)) :
    vertexAt m r i j = .error (.beyondTable i j r.size) := by
  rw [vertexAt_eq r hi hj, Relief.heightAt, Table.entry, dif_neg h]
  rfl

theorem ofBlock_congr {b : Block} (hb : b.Within cells) (hmesh : cells < m.size)
    (h : ∀ i < m.size, ∀ j < m.size, r'.heightAt i j = r.heightAt i j) :
    Patch.ofBlock m r' b = Patch.ofBlock m r b := by
  have hvertex {i j : Nat} (hi : i ≤ cells) (hj : j ≤ cells) : vertexAt m r' i j = vertexAt m r i j := by
    have hi' := hi.trans_lt hmesh
    have hj' := hj.trans_lt hmesh
    rw [vertexAt_eq r' hi' hj', vertexAt_eq r hi' hj', h i hi' j hj']
  have hi₂ := hb.rows.inside
  have hj₂ := hb.columns.inside
  have hi := hb.rows.nonempty.le.trans hi₂
  have hj := hb.columns.nonempty.le.trans hj₂
  rw [Patch.ofBlock, Patch.ofBlock, hvertex hi hj, hvertex hi hj₂, hvertex hi₂ hj₂, hvertex hi₂ hj]

theorem patches_congr (h : ∀ i < m.size, ∀ j < m.size, r'.heightAt i j = r.heightAt i j)
    (hsize : 1 ≤ m.size) (hstride : 1 ≤ stride) : patches m r' stride = patches m r stride := by
  obtain ⟨bs, hbs, htiles⟩ := blocks_tile hsize hstride
  rw [patches, patches, hbs]
  exact mapM_congr fun b hb => ofBlock_congr (htiles.within b hb) (by omega) h

theorem exists_first_line (hstride : 1 ≤ stride) (hk : k ≤ cells) :
    ∃ q ≤ cells ⌈/⌉ stride, k ≤ line cells stride q ∧ ∀ p < q, line cells stride p < k := by
  have hlast : k ≤ line cells stride (cells ⌈/⌉ stride) := by rwa [line_ceilDiv hstride]
  have hexists : ∃ q, k ≤ line cells stride q := ⟨_, hlast⟩
  exact ⟨Nat.find hexists, Nat.find_min' hexists hlast, Nat.find_spec hexists,
    fun p hp => not_le.mp (Nat.find_min hexists hp)⟩

theorem isLeast_line {q : Nat} (hq : k ≤ line cells stride q)
    (hbefore : ∀ p < q, line cells stride p < k) :
    IsLeast {l | k ≤ l ∧ ∃ q, l = line cells stride q} (line cells stride q) := by
  refine ⟨⟨hq, q, rfl⟩, ?_⟩
  rintro _ ⟨hl, p, rfl⟩
  by_contra hlt
  have hp : p < q := by
    by_contra hle
    exact hlt (line_mono _ _ (not_lt.mp hle))
  exact (hbefore p hp).not_ge hl

theorem exists_blocks_first_row (hsize : 2 ≤ m.size) (hstride : 1 ≤ stride) :
    let line := line (m.size - 1) stride
    ∃ bs, blocks m.size stride = .ok bs ∧ ∀ p < (m.size - 1) ⌈/⌉ stride,
      bs[p]? = some ⟨⟨line 0, line 1⟩, ⟨line p, line (p + 1)⟩⟩ := by
  intro line
  obtain ⟨bs, hbs, -, hget⟩ := exists_blocks (by omega : 1 ≤ m.size) hstride
  refine ⟨bs, hbs, ?_⟩
  intro p hp
  have h := hget 0 ((lt_ceilDiv_iff hstride).mpr (by omega)) p hp
  rwa [Nat.zero_mul, Nat.zero_add] at h

/-- Over a relief that is smaller than the mesh the first row of blocks breaks off at the first line that the
relief does not reach. -/
theorem patches_eq_error (hsize : 2 ≤ m.size) (hstride : 1 ≤ stride) (hsmall : r.size < m.size) :
    ∃ l, IsLeast {l | r.size ≤ l ∧ ∃ q, l = line (m.size - 1) stride q} l ∧
      patches m r stride = .error (.beyondTable 0 l r.size) := by
  obtain ⟨q, hle, hq, hbefore⟩ := exists_first_line hstride (by omega : r.size ≤ m.size - 1)
  obtain ⟨bs, hbs, hblock⟩ := exists_blocks_first_row hsize hstride
  refine ⟨_, isLeast_line hq hbefore, ?_⟩
  have hinside (p : Nat) : line (m.size - 1) stride p < m.size := by
    have : line (m.size - 1) stride p ≤ m.size - 1 := Nat.min_le_right _ _
    omega
  have hzero := line_zero (m.size - 1) stride
  rw [patches, hbs]
  cases q with
  | zero =>
    -- The relief has no heights at all, so the very first corner is missing.
    refine mapM_eq_error (hblock 0 ((lt_ceilDiv_iff hstride).mpr (by omega))) ?_
      fun i hi => absurd hi i.not_lt_zero
    rw [Patch.ofBlock, vertexAt_eq_error (hinside 0) (hinside 0) (by omega), hzero]
    rfl
  | succ p =>
    -- The second corner of a block is the first that lies on its last line.
    have hreached := hbefore p p.lt_succ_self
    refine mapM_eq_error (hblock p hle) ?_ ?_
    · obtain ⟨v, hv, -⟩ := exists_vertexAt (r := r) (hinside 0) (hinside p) (by omega) hreached
      rw [Patch.ofBlock, hv, vertexAt_eq_error (hinside 0) (hinside (p + 1)) (by omega), hzero]
      rfl
    · intro i hi b hb
      have hi' := hi.trans hle
      rw [hblock i hi'] at hb
      cases hb
      have hrows := (strip_within hstride (Nat.zero_lt_of_lt hi')).nonempty
      have hcolumns := (strip_within hstride hi').nonempty
      have hrows' : line (m.size - 1) stride 1 ≤ line (m.size - 1) stride p :=
        line_mono _ _ (Nat.succ_le_of_lt (Nat.zero_lt_of_lt hi))
      have hcolumns' : line (m.size - 1) stride (i + 1) ≤ line (m.size - 1) stride p :=
        line_mono _ _ hi
      obtain ⟨patch, hpatch, -⟩ := exists_ofBlock (r := r) (b := ⟨⟨_, _⟩, ⟨_, _⟩⟩)
        ⟨⟨hrows, hrows'⟩, ⟨hcolumns, hcolumns'⟩⟩ (hinside p) hreached
      exact ⟨patch, hpatch⟩

theorem strips_of_le (hcells : 0 < cells) (h : cells ≤ stride) : strips cells stride = [⟨0, cells⟩] := by
  have hend : ¬ (0 < stride ∧ 0 + stride < cells) := by omega
  rw [strips, stripsFrom, if_pos ⟨hcells.trans_le h, hcells⟩, stripsFrom, if_neg hend, Nat.zero_add,
    Nat.min_eq_right h]

theorem patches_of_le (m : Mesh) (r : Relief) (hsize : 2 ≤ m.size) (h : m.size - 1 ≤ stride) :
    patches m r stride =
      (Patch.ofBlock m r ⟨⟨0, m.size - 1⟩, ⟨0, m.size - 1⟩⟩).map fun p => [p] := by
  have hblocks : blocks m.size stride = .ok [⟨⟨0, m.size - 1⟩, ⟨0, m.size - 1⟩⟩] := by
    rw [blocks, if_neg (by omega), if_neg (by omega), strips_of_le (by omega) h]
    rfl
  rw [patches, hblocks]
  show [_].mapM (Patch.ofBlock m r) = _
  rw [List.mapM_cons]
  cases Patch.ofBlock m r ⟨⟨0, m.size - 1⟩, ⟨0, m.size - 1⟩⟩ <;> rfl

/-- A strip that does not begin the axis begins no earlier than at the stride, so one stride further it is
still within a word, however large the stride. -/
theorem line_add_stride_lt (hstride : 1 ≤ stride) (hword : stride < UInt64.size)
    (hcells : cells < UInt64.size / 2) (hk : k < cells ⌈/⌉ stride) :
    line cells stride k + stride < UInt64.size := by
  have hlt := (lt_ceilDiv_iff hstride).mp hk
  rw [line, Nat.min_eq_left hlt.le]
  cases k with
  | zero => omega
  | succ k =>
    have hle : stride ≤ (k + 1) * stride := Nat.le_mul_of_pos_left _ (Nat.succ_pos k)
    omega

theorem exists_blocks_of_strips (hsize : 1 ≤ cells) (hstride : 1 ≤ stride) :
    ∃ bs, blocks cells stride = .ok bs ∧
      ∀ b ∈ bs, ∀ s ∈ [b.rows, b.columns], s ∈ strips (cells - 1) stride := by
  obtain ⟨bs, hbs, -⟩ := blocks_tile hsize hstride
  refine ⟨bs, hbs, ?_⟩
  intro b hb
  simpa using strips_of_mem_blocks hbs hb

/-- A relief that is not smaller than the mesh has a patch for every block. -/
theorem exists_patches_of_le (hsize : 1 ≤ m.size) (hstride : 1 ≤ stride) (hle : m.size ≤ r.size) :
    ∃ ps, patches m r stride = .ok ps ∧
      ps.length = ((m.size - 1) ⌈/⌉ stride) * ((m.size - 1) ⌈/⌉ stride) := by
  obtain ⟨bs, hbs, hlen, -⟩ := exists_blocks hsize hstride
  obtain ⟨bs', hbs', htiles⟩ := blocks_tile hsize hstride
  obtain rfl : bs = bs' := Except.ok.inj (hbs.symm.trans hbs')
  obtain ⟨ps, hps, hspans⟩ := exists_patches_of_within hbs htiles.within (by omega)
    (by omega : m.size - 1 < r.size)
  exact ⟨ps, hps, hspans.length_eq.symm.trans hlen⟩

/-- How cutting into patches ends, for a mesh of `n` samples, a relief of `k` and any stride. Without samples
there are no steps to count, whatever the stride; a stride of zero is no step; and one sample has no cells.
Beyond that a relief that is not smaller than the mesh has its square number of patches, which depend only on
the heights inside the mesh, and a smaller one lacks the corner in the first row at the first drawn line that it
does not reach. With no more samples than can be addressed, one stride past the start of a strip never
overflows a word; a stride of at least the whole axis gives one patch; and accepted settings crash nothing over
a relief of the mesh's shape. -/
theorem patches_outcome (m : Mesh) (r : Relief) (stride : Nat) :
    let n := m.size
    let k := r.size
    let count := (n - 1) ⌈/⌉ stride
    let result := patches m r stride
    (n = 0 → ∃ f : Fault, result = .error f ∧ f.message = "attempt to subtract with overflow") ∧
    (1 ≤ n → stride = 0 → ∃ f : Fault, result = .error f ∧
      f.message = "assertion failed: step != 0") ∧
    (n = 1 → 1 ≤ stride → result = .ok []) ∧
    (2 ≤ n → 1 ≤ stride → n ≤ k → ∃ ps, result = .ok ps ∧ ps.length = count * count ∧ 1 ≤ count ∧
      ∀ r' : Relief, (∀ i < n, ∀ j < n, r'.heightAt i j = r.heightAt i j) →
        patches m r' stride = .ok ps) ∧
    (2 ≤ n → 1 ≤ stride → k < n →
      ∃ l, IsLeast {l | k ≤ l ∧ ∃ q, l = min (q * stride) (n - 1)} l ∧
        result = .error (.beyondTable 0 l k)) ∧
    (1 ≤ n → 1 ≤ stride → ∃ bs, blocks n stride = .ok bs ∧ ∀ b ∈ bs, ∀ s ∈ [b.rows, b.columns],
      s.stop = min (s.start + stride) (n - 1) ∧
      (n ≤ UInt64.size / 2 → stride < UInt64.size → s.start + stride < UInt64.size)) ∧
    (2 ≤ n → n ≤ k → ∃ p, ∀ s, n - 1 ≤ s → patches m r s = .ok [p]) ∧
    (∀ s : Settings, s.check = .ok () → n = s.samples → k = n → ∃ ps, patches m r s.stride = .ok ps) := by
  intro n k count result
  refine ⟨?_, ?_, ?_, ?_, ?_, ?_, ?_, ?_⟩
  · intro hn
    refine ⟨.overflow .difference, ?_, rfl⟩
    show patches m r stride = _
    rw [patches, blocks, if_pos hn]
    rfl
  · intro hn hstride
    refine ⟨.zeroStep, ?_, rfl⟩
    show patches m r stride = _
    rw [patches, blocks, if_neg (Nat.ne_of_gt hn), if_pos hstride]
    rfl
  · intro hn hstride
    -- There is no cell, so there is no block.
    obtain ⟨bs, hbs, hlen, -⟩ := exists_blocks hn.ge hstride
    rw [show m.size - 1 = 0 from Nat.sub_eq_zero_of_le hn.le, zero_ceilDiv] at hlen
    show patches m r stride = _
    rw [patches, hbs, List.length_eq_zero_iff.mp hlen]
    rfl
  · intro hn hstride hk
    obtain ⟨ps, hps, hlen⟩ := exists_patches_of_le (Nat.le_of_succ_le hn) hstride hk
    refine ⟨ps, hps, hlen, (lt_ceilDiv_iff hstride).mpr (by omega), ?_⟩
    intro r' h
    exact (patches_congr h (Nat.le_of_succ_le hn) hstride).trans hps
  · intro hn hstride hk
    exact patches_eq_error hn hstride hk
  · intro hn hstride
    obtain ⟨bs, hbs, hstrips⟩ := exists_blocks_of_strips hn hstride
    refine ⟨bs, hbs, ?_⟩
    intro b hb s hs
    obtain ⟨q, hq, rfl⟩ := exists_line_of_mem_strips hstride (hstrips b hb s hs)
    exact ⟨line_succ hstride hq, fun hcells hword => line_add_stride_lt hstride hword (by omega) hq⟩
  · intro hn hk
    have hcells : n - 1 < n := Nat.sub_one_lt (by omega)
    have hwithin : Strip.Within ⟨0, n - 1⟩ (n - 1) := ⟨Nat.sub_pos_of_lt hn, le_rfl⟩
    obtain ⟨p, hp, -⟩ := exists_ofBlock (b := ⟨⟨0, n - 1⟩, ⟨0, n - 1⟩⟩) ⟨hwithin, hwithin⟩ hcells
      (hcells.trans_le hk)
    refine ⟨p, ?_⟩
    intro s hs
    rw [patches_of_le m r hn hs, hp]
    rfl
  · intro s hcheck hn hk
    obtain ⟨-, -, hsamples, ⟨hstride, -⟩, -⟩ := Settings.check_eq_ok_iff.mp hcheck
    obtain ⟨ps, hps, -⟩ := exists_patches_of_le (by omega) hstride hk.ge
    exact ⟨ps, hps⟩

end Landscape
