import Landscape.Proofs.Surface.Tiling

namespace Landscape

/-- The last place of a square arrangement is that of its last row and column. -/
theorem getLast?_of_square {α : Type} {xs : List α} {n : Nat} (hlen : xs.length = n * n)
    (hn : 1 ≤ n) : xs.getLast? = xs[(n - 1) * n + (n - 1)]? := by
  have hle : n ≤ n * n := Nat.le_mul_self n
  have hplace : (n - 1) * n + (n - 1) = xs.length - 1 := by
    rw [hlen, Nat.sub_mul, Nat.one_mul]
    omega
  rw [hplace]
  exact List.getLast?_eq_getElem?

theorem exists_patch_grid {m : Mesh} {r : Relief} {stride : Nat} (hsize : 1 ≤ m.size)
    (hshape : r.size = m.size) (hstride : 1 ≤ stride) :
    let count := (m.size - 1) ⌈/⌉ stride
    let line := line (m.size - 1) stride
    ∃ ps, patches m r stride = .ok ps ∧ ps.length = count * count ∧
      ∀ i < count, ∀ j < count, ∃ p, ps[i * count + j]? = some p ∧
        p.Spans m r ⟨⟨line i, line (i + 1)⟩, ⟨line j, line (j + 1)⟩⟩ := by
  intro count line
  obtain ⟨bs, hbs, hlen, hget⟩ := exists_blocks hsize hstride
  obtain ⟨bs', hbs', htiles⟩ := blocks_tile hsize hstride
  obtain rfl : bs = bs' := Except.ok.inj (hbs.symm.trans hbs')
  obtain ⟨ps, hps, hspans⟩ := exists_patches hshape hbs htiles.within (by omega)
  refine ⟨ps, hps, hspans.length_eq.symm.trans hlen, ?_⟩
  intro i hi j hj
  exact exists_patch_of_block hspans (hget i hi j hj)

theorem Patch.Spans.beside {p q : Patch} {m : Mesh} {r : Relief} {rows left right : Strip}
    (hp : p.Spans m r ⟨rows, left⟩) (hq : q.Spans m r ⟨rows, right⟩)
    (hline : left.stop = right.start) : p.second = q.first ∧ p.third = q.fourth := by
  have hsecond := hp.second
  have hthird := hp.third
  dsimp only at hsecond hthird
  rw [hline] at hsecond hthird
  exact ⟨hsecond.unique hq.first, hthird.unique hq.fourth⟩

theorem Patch.Spans.below {p q : Patch} {m : Mesh} {r : Relief} {upper lower columns : Strip}
    (hp : p.Spans m r ⟨upper, columns⟩) (hq : q.Spans m r ⟨lower, columns⟩)
    (hline : upper.stop = lower.start) : p.fourth = q.first ∧ p.third = q.second := by
  have hfourth := hp.fourth
  have hthird := hp.third
  dsimp only at hfourth hthird
  rw [hline] at hfourth hthird
  exact ⟨hfourth.unique hq.first, hthird.unique hq.second⟩

/-- The patches row by row, their corners and heights, the corners that neighbours share, and the
corner at which the last patch ends. -/
theorem patches_closed_form (m : Mesh) (r : Relief) (stride : Nat) (hsize : 1 ≤ m.size)
    (hshape : r.size = m.size) (hstride : 1 ≤ stride) :
    let count := (m.size - 1) ⌈/⌉ stride
    let line x := min (x * stride) (m.size - 1)
    ∃ ps, patches m r stride = .ok ps ∧ ps.length = count * count ∧
      (∀ i < count, ∀ j < count, ∃ p, ps[i * count + j]? = some p ∧
        p.first.LiesAt m r (line i) (line j) ∧ p.second.LiesAt m r (line i) (line (j + 1)) ∧
        p.third.LiesAt m r (line (i + 1)) (line (j + 1)) ∧
        p.fourth.LiesAt m r (line (i + 1)) (line j) ∧
        p.height =
          (0.0 + p.first.height + p.second.height + p.third.height + p.fourth.height) / 4.0) ∧
      (∀ i j, i < count → j + 1 < count → ∃ p q,
        ps[i * count + j]? = some p ∧ ps[i * count + j + 1]? = some q ∧
        p.second = q.first ∧ p.third = q.fourth) ∧
      (∀ i j, i + 1 < count → j < count → ∃ p q,
        ps[i * count + j]? = some p ∧ ps[i * count + j + count]? = some q ∧
        p.fourth = q.first ∧ p.third = q.second) ∧
      (1 ≤ count → ∃ p, ps.getLast? = some p ∧ p.third.LiesAt m r (m.size - 1) (m.size - 1)) := by
  intro count line
  obtain ⟨ps, hps, hlen, hget⟩ := exists_patch_grid hsize hshape hstride
  refine ⟨ps, hps, hlen, ?_, ?_, ?_, ?_⟩
  · intro i hi j hj
    obtain ⟨p, hp, hspans⟩ := hget i hi j hj
    exact ⟨p, hp, hspans.first, hspans.second, hspans.third, hspans.fourth, rfl⟩
  · intro i j hi hj
    obtain ⟨p, hp, hp'⟩ := hget i hi j (by omega)
    obtain ⟨q, hq, hq'⟩ := hget i hi (j + 1) hj
    exact ⟨p, q, hp, hq, hp'.beside hq' rfl⟩
  · intro i j hi hj
    obtain ⟨p, hp, hp'⟩ := hget i (by omega) j hj
    obtain ⟨q, hq, hq'⟩ := hget (i + 1) hi j hj
    have hnext : i * count + j + count = (i + 1) * count + j := by
      rw [Nat.succ_mul]
      omega
    exact ⟨p, q, hp, hnext ▸ hq, hp'.below hq' rfl⟩
  · intro hcount
    -- The last row and column end at the last line, which is the last sample.
    obtain ⟨p, hp, hspans⟩ := hget (count - 1) (by omega) (count - 1) (by omega)
    have hend : Landscape.line (m.size - 1) stride (count - 1 + 1) = m.size - 1 := by
      rw [Nat.sub_add_cancel hcount]
      exact line_ceilDiv hstride _
    have hthird := hspans.third
    dsimp only at hthird
    rw [hend] at hthird
    exact ⟨p, (getLast?_of_square hlen hcount).trans hp, hthird⟩

/-- The default picture: fifty by fifty patches, the last up to the last sample of both axes although
two does not divide ninety-nine. -/
theorem patches_closed_form_default :
    let m := Mesh.ofSpans ⟨-0.5, 0.5⟩ ⟨-1.5, 1.5⟩ 100
    let r := Relief.ofMesh m
    (1 ≤ m.size ∧ r.size = m.size ∧ 1 ≤ 2) ∧
      ∃ ps, patches m r 2 = .ok ps ∧ ps.length = 50 * 50 ∧
        ∃ p, ps.getLast? = some p ∧ p.third.LiesAt m r 99 99 := by
  intro m r
  have hsize : 1 ≤ m.size := by decide
  have hcount : (m.size - 1) ⌈/⌉ 2 = 50 := by decide
  obtain ⟨ps, hps, hlen, -, -, -, hlast⟩ := patches_closed_form m r 2 hsize rfl (by decide)
  rw [hcount] at hlen
  exact ⟨⟨hsize, rfl, by decide⟩, ps, hps, hlen, hlast (by rw [hcount]; decide)⟩

end Landscape
