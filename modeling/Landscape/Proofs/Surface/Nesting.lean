import Landscape.Proofs.Surface.Seams

namespace Landscape

inductive Side where
  | start
  | stop
  deriving DecidableEq, Repr

namespace Strip

def edge (s : Strip) : Side → Nat
  | .start => s.start
  | .stop => s.stop

def lastStep (s : Strip) : Side → Nat
  | .start => s.start
  | .stop => s.stop - 1

def Inside (s t : Strip) : Prop :=
  t.start ≤ s.start ∧ s.stop ≤ t.stop

instance (s t : Strip) : Decidable (s.Inside t) :=
  inferInstanceAs (Decidable (_ ∧ _))

theorem contains_lastStep {s : Strip} (h : s.start < s.stop) (side : Side) :
    s.Contains (s.lastStep side) := by
  cases side with
  | start => exact ⟨Nat.le_refl _, h⟩
  | stop => exact ⟨Nat.le_sub_one_of_lt h, Nat.sub_one_lt (Nat.ne_zero_of_lt h)⟩

/-- A strip inside another that has its unit step at an end ends there itself. -/
theorem Inside.edge_eq {s t : Strip} (h : s.Inside t) {side : Side}
    (hstep : s.Contains (t.lastStep side)) : s.edge side = t.edge side := by
  obtain ⟨hstart, hstop⟩ := h
  cases side with
  | start => exact Nat.le_antisymm hstep.1 hstart
  | stop => exact Nat.le_antisymm hstop (Nat.le_of_pred_lt hstep.2)

theorem Inside.contains {s t : Strip} (h : s.Inside t) {p : Nat} (hp : s.Contains p) :
    t.Contains p :=
  ⟨h.1.trans hp.1, hp.2.trans_le h.2⟩

end Strip

theorem line_mul (cells stride factor k : Nat) :
    line cells (stride * factor) k = line cells stride (k * factor) := by
  rw [line, line, Nat.mul_assoc, Nat.mul_comm stride factor]

/-- A fine strip lies inside the coarse one with which it shares a unit step. -/
theorem inside_of_contains {cells stride factor p : Nat} (hstride : 0 < stride) (hfactor : 0 < factor)
    (hp : p < cells) {s t : Strip} (hs : s ∈ strips cells stride)
    (ht : t ∈ strips cells (stride * factor)) (hsp : s.Contains p) (htp : t.Contains p) :
    s.Inside t := by
  have hcoarse : 0 < stride * factor := Nat.mul_pos hstride hfactor
  obtain ⟨i, -, rfl⟩ := exists_line_of_mem_strips hstride hs
  obtain ⟨k, -, rfl⟩ := exists_line_of_mem_strips hcoarse ht
  have hi : i = p / stride := (contains_strip_iff hstride hp i).mp hsp
  have hk : k = i / factor := by
    rw [(contains_strip_iff hcoarse hp k).mp htp, hi, Nat.div_div_eq_div_mul]
  rw [Strip.Inside, line_mul, line_mul, hk]
  constructor
  · exact line_mono _ _ (Nat.div_mul_le_self i factor)
  · exact line_mono _ _ (Nat.lt_mul_of_div_lt (Nat.lt_succ_self _) hfactor)

namespace Block

def Inside (b c : Block) : Prop :=
  b.rows.Inside c.rows ∧ b.columns.Inside c.columns

instance (b c : Block) : Decidable (b.Inside c) :=
  inferInstanceAs (Decidable (_ ∧ _))

/-- The block has the cells of some blocks, no two of which share one. -/
structure UnionOf (c : Block) (bs : List Block) : Prop where
  contains_iff : ∀ p q, c.Contains p q ↔ ∃ b ∈ bs, b.Contains p q
  disjoint : bs.Pairwise fun b b' => ∀ p q, ¬ (b.Contains p q ∧ b'.Contains p q)

theorem Inside.contains {b c : Block} (h : b.Inside c) {p q : Nat} (hcell : b.Contains p q) :
    c.Contains p q :=
  ⟨h.1.contains hcell.1, h.2.contains hcell.2⟩

theorem Within.contains_lastStep {b : Block} {cells : Nat} (h : b.Within cells) (i j : Side) :
    b.Contains (b.rows.lastStep i) (b.columns.lastStep j) :=
  ⟨Strip.contains_lastStep h.rows.nonempty i, Strip.contains_lastStep h.columns.nonempty j⟩

theorem Within.lt_of_contains {b : Block} {cells p q : Nat} (h : b.Within cells)
    (hcell : b.Contains p q) : p < cells ∧ q < cells :=
  ⟨hcell.1.2.trans_le h.rows.inside, hcell.2.2.trans_le h.columns.inside⟩

end Block

/-- Every block lies inside those of others with which it shares a cell. -/
def Refines (bs cs : List Block) : Prop :=
  ∀ b ∈ bs, ∀ c ∈ cs, ∀ p q, b.Contains p q → c.Contains p q → b.Inside c

section Refinement

variable {cells : Nat} {bs cs : List Block} (hbs : Tiles cells bs) (hcs : Tiles cells cs)
  (h : Refines bs cs)

include hbs in
theorem Tiles.disjoint :
    bs.Pairwise fun b b' => ∀ p q, ¬ (b.Contains p q ∧ b'.Contains p q) := by
  rw [List.pairwise_iff_getElem]
  rintro k l hk hl hlt p q ⟨hb, hb'⟩
  obtain ⟨hp, hq⟩ := (hbs.within _ (List.getElem_mem hk)).lt_of_contains hb
  have hunique := (hbs.covers_once p hp q hq).unique
    ⟨_, List.getElem?_eq_getElem hk, hb⟩ ⟨_, List.getElem?_eq_getElem hl, hb'⟩
  exact hlt.ne hunique

include hbs hcs h

theorem Refines.exists_inside {c : Block} (hc : c ∈ cs) {p q : Nat} (hcell : c.Contains p q) :
    ∃ (l : Nat) (b : Block), bs[l]? = some b ∧ b.Inside c ∧ b.Contains p q := by
  obtain ⟨hp, hq⟩ := (hcs.within c hc).lt_of_contains hcell
  obtain ⟨l, ⟨b, hb, hbcell⟩, -⟩ := hbs.covers_once p hp q hq
  exact ⟨l, b, hb, h b (List.mem_of_getElem? hb) c hc p q hbcell hcell, hbcell⟩

theorem Refines.unionOf {c : Block} (hc : c ∈ cs) : c.UnionOf (bs.filter (·.Inside c)) where
  contains_iff p q := by
    simp only [List.mem_filter, decide_eq_true_iff]
    constructor
    · intro hcell
      obtain ⟨l, b, hb, hinside, hbcell⟩ := h.exists_inside hbs hcs hc hcell
      exact ⟨b, ⟨List.mem_of_getElem? hb, hinside⟩, hbcell⟩
    · rintro ⟨b, ⟨-, hinside⟩, hbcell⟩
      exact hinside.contains hbcell
  disjoint := hbs.disjoint.filter _

theorem Refines.existsUnique_inside {b : Block} (hb : b ∈ bs) :
    ∃! k : Nat, ∃ c, cs[k]? = some c ∧ b.Inside c := by
  have hwithin := hbs.within b hb
  -- Both parts follow from one cell of the block.
  have hcell := hwithin.contains_lastStep .start .start
  obtain ⟨hp, hq⟩ := hwithin.lt_of_contains hcell
  obtain ⟨k, ⟨c, hk, hccell⟩, hunique⟩ := hcs.covers_once _ hp _ hq
  refine ⟨k, ⟨c, hk, h b hb c (List.mem_of_getElem? hk) _ _ hcell hccell⟩, ?_⟩
  rintro l ⟨c', hl, hinside⟩
  exact hunique l ⟨c', hl, hinside.contains hcell⟩

/-- At every corner of a coarse block a fine block inside it has the same corner. -/
theorem Refines.exists_corner {c : Block} (hc : c ∈ cs) (i j : Side) :
    ∃ (l : Nat) (b : Block), bs[l]? = some b ∧ b.Inside c ∧
      b.rows.edge i = c.rows.edge i ∧ b.columns.edge j = c.columns.edge j := by
  obtain ⟨l, b, hb, hinside, hcell⟩ :=
    h.exists_inside hbs hcs hc ((hcs.within c hc).contains_lastStep i j)
  exact ⟨l, b, hb, hinside, hinside.1.edge_eq hcell.1, hinside.2.edge_eq hcell.2⟩

end Refinement

/-- The blocks of a stride refine those of its multiples. -/
theorem blocks_refine {size stride factor : Nat} (hsize : 1 ≤ size) (hstride : 1 ≤ stride)
    (hfactor : 1 ≤ factor) :
    ∃ bs cs, blocks size stride = .ok bs ∧ blocks size (stride * factor) = .ok cs ∧
      Tiles (size - 1) bs ∧ Tiles (size - 1) cs ∧ Refines bs cs := by
  have hcoarse : 1 ≤ stride * factor := Nat.mul_pos hstride hfactor
  obtain ⟨bs, hbs, htiles⟩ := blocks_tile hsize hstride
  obtain ⟨cs, hcs, htiles'⟩ := blocks_tile hsize hcoarse
  refine ⟨bs, cs, hbs, hcs, htiles, htiles', ?_⟩
  intro b hb c hc p q hbcell hccell
  obtain ⟨hp, hq⟩ := (htiles.within b hb).lt_of_contains hbcell
  obtain ⟨hrows, hcolumns⟩ := strips_of_mem_blocks hbs hb
  obtain ⟨hrows', hcolumns'⟩ := strips_of_mem_blocks hcs hc
  constructor
  · exact inside_of_contains hstride hfactor hp hrows hrows' hbcell.1 hccell.1
  · exact inside_of_contains hstride hfactor hq hcolumns hcolumns' hbcell.2 hccell.2

def Patch.corner (p : Patch) : Side → Side → Vertex
  | .start, .start => p.first
  | .start, .stop => p.second
  | .stop, .stop => p.third
  | .stop, .start => p.fourth

theorem Patch.mem_corners_iff {p : Patch} {v : Vertex} :
    v ∈ p.corners ↔ ∃ i j, p.corner i j = v := by
  have hcorners : p.corners = [p.corner .start .start, p.corner .start .stop,
      p.corner .stop .stop, p.corner .stop .start] := rfl
  rw [hcorners]
  constructor
  · intro hv
    simp only [List.mem_cons, List.not_mem_nil, or_false] at hv
    rcases hv with rfl | rfl | rfl | rfl <;> exact ⟨_, _, rfl⟩
  · rintro ⟨i, j, rfl⟩
    cases i <;> cases j <;> simp

theorem Patch.Spans.liesAt_corner {p : Patch} {m : Mesh} {r : Relief} {b : Block} (h : p.Spans m r b)
    (i j : Side) : (p.corner i j).LiesAt m r (b.rows.edge i) (b.columns.edge j) := by
  cases i <;> cases j
  · exact h.first
  · exact h.second
  · exact h.fourth
  · exact h.third

/-- The patches of a stride and of a multiple of it. A coarse block is the disjoint union of the fine
ones inside it, every fine block lies inside one coarse block, and every corner of a coarse patch is the
same corner of a fine patch inside it, at the same place of the mesh. -/
theorem coarse_patches_of_fine (m : Mesh) (r : Relief) (stride coarse : Nat) (hsize : 1 ≤ m.size)
    (hshape : r.size = m.size) (hcoarse : 1 ≤ coarse) (hmultiple : stride ∣ coarse) :
    ∃ bs ps cs qs,
      (blocks m.size stride = .ok bs ∧ patches m r stride = .ok ps ∧
        List.Forall₂ (fun b p => p.Spans m r b) bs ps) ∧
      (blocks m.size coarse = .ok cs ∧ patches m r coarse = .ok qs ∧
        List.Forall₂ (fun c q => q.Spans m r c) cs qs) ∧
      (∀ c ∈ cs, c.UnionOf (bs.filter (·.Inside c))) ∧
      (∀ b ∈ bs, ∃! k : Nat, ∃ c, cs[k]? = some c ∧ b.Inside c) ∧
      (∀ (k : Nat) c q, cs[k]? = some c → qs[k]? = some q → ∀ i j : Side,
        ∃ (l : Nat) (b : Block) (p : Patch), bs[l]? = some b ∧ ps[l]? = some p ∧ b.Inside c ∧
          b.rows.edge i = c.rows.edge i ∧ b.columns.edge j = c.columns.edge j ∧
          p.corner i j = q.corner i j) := by
  obtain ⟨factor, rfl⟩ := hmultiple
  have hstride : 1 ≤ stride := Nat.pos_of_mul_pos_right hcoarse
  have hfactor : 1 ≤ factor := Nat.pos_of_mul_pos_left hcoarse
  obtain ⟨bs, cs, hbs, hcs, htiles, htiles', hrefines⟩ := blocks_refine hsize hstride hfactor
  obtain ⟨ps, hps, hspans⟩ := exists_patches hshape hbs htiles.within (by omega)
  obtain ⟨qs, hqs, hspans'⟩ := exists_patches hshape hcs htiles'.within (by omega)
  refine ⟨bs, ps, cs, qs, ⟨hbs, hps, hspans⟩, ⟨hcs, hqs, hspans'⟩, ?_, ?_, ?_⟩
  · intro c hc
    exact hrefines.unionOf htiles htiles' hc
  · intro b hb
    exact hrefines.existsUnique_inside htiles htiles' hb
  · intro k c q hc hq i j
    obtain ⟨l, b, hb, hinside, hrow, hcolumn⟩ :=
      hrefines.exists_corner htiles htiles' (List.mem_of_getElem? hc) i j
    obtain ⟨p, hp, hpspans⟩ := exists_patch_of_block hspans hb
    obtain ⟨q', hq', hqspans⟩ := exists_patch_of_block hspans' hc
    obtain rfl : q = q' := Option.some.inj (hq.symm.trans hq')
    refine ⟨l, b, p, hb, hp, hinside, hrow, hcolumn, ?_⟩
    -- One place of the mesh has one point of the surface.
    have hlies := hpspans.liesAt_corner i j
    rw [hrow, hcolumn] at hlies
    exact hlies.unique (hqspans.liesAt_corner i j)

/-- Seven cells under strides of two and of four: the last strips are one and three cells wide, and all
corners of the coarse patches are corners of fine ones. -/
theorem coarse_patches_of_fine_clamped :
    let m := Mesh.ofSpans ⟨-0.5, 0.5⟩ ⟨-1.5, 1.5⟩ 8
    let r := Relief.ofMesh m
    (1 ≤ m.size ∧ r.size = m.size ∧ 1 ≤ 4 ∧ 2 ∣ 4) ∧
      ∃ ps qs, patches m r 2 = .ok ps ∧ patches m r 4 = .ok qs ∧
        ∀ q ∈ qs, ∀ v ∈ q.corners, ∃ p ∈ ps, v ∈ p.corners := by
  intro m r
  have hsize : 1 ≤ m.size := by decide
  obtain ⟨bs, ps, cs, qs, ⟨-, hps, -⟩, ⟨-, hqs, hspans⟩, -, -, hcorner⟩ :=
    coarse_patches_of_fine m r 2 4 hsize rfl (by decide) (by decide)
  refine ⟨⟨hsize, rfl, by decide, by decide⟩, ps, qs, hps, hqs, ?_⟩
  intro q hq v hv
  obtain ⟨k, hk, hget⟩ := List.mem_iff_getElem.mp hq
  have hc := List.getElem?_eq_getElem (hspans.length_eq ▸ hk)
  obtain ⟨i, j, rfl⟩ := Patch.mem_corners_iff.mp hv
  obtain ⟨l, b, p, -, hp, -, -, -, heq⟩ :=
    hcorner k _ q hc (hget ▸ List.getElem?_eq_getElem hk) i j
  exact ⟨p, List.mem_of_getElem? hp, Patch.mem_corners_iff.mpr ⟨i, j, heq⟩⟩

end Landscape
