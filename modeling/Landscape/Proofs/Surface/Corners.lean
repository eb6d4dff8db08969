import Landscape.Proofs.Relief.Lookups
import Landscape.Proofs.Surface.Strips
import Mathlib.Data.List.Forall2

namespace Landscape

/-- The surface point over the sample in row `i` and column `j`: columns walk the real axis and rows
the imaginary one. -/
def Vertex.LiesAt (v : Vertex) (m : Mesh) (r : Relief) (i j : Nat) : Prop :=
  m.real[j]? = some v.real ∧ r.heights.rows[i]?.bind (·[j]?) = some v.height ∧
    m.imaginary[i]? = some v.imaginary

theorem Vertex.LiesAt.unique {v w : Vertex} {m : Mesh} {r : Relief} {i j : Nat}
    (hv : v.LiesAt m r i j) (hw : w.LiesAt m r i j) : v = w := by
  obtain ⟨vr, vh, vi⟩ := v
  obtain ⟨wr, wh, wi⟩ := w
  have hr := Option.some.inj (hv.1.symm.trans hw.1)
  have hh := Option.some.inj (hv.2.1.symm.trans hw.2.1)
  have hi := Option.some.inj (hv.2.2.symm.trans hw.2.2)
  dsimp only at hr hh hi
  rw [hr, hh, hi]

theorem exists_vertexAt {m : Mesh} {r : Relief} {i j : Nat} (hi : i < m.size) (hj : j < m.size)
    (hi' : i < r.size) (hj' : j < r.size) : ∃ v, vertexAt m r i j = .ok v ∧ v.LiesAt m r i j := by
  refine ⟨⟨m.real[j], r.heights.rows[i][j], m.imaginary[i]⟩, ?_, ?_⟩
  · rw [vertexAt, Mesh.point_eq, dif_pos ⟨hi, hj⟩, Relief.heightAt, Table.entry, dif_pos ⟨hi', hj'⟩]
    rfl
  · simp [Vertex.LiesAt, hi, hj, hi', hj']

/-- The corners of a patch lie at the corners of a block, walked around it. -/
structure Patch.Spans (p : Patch) (m : Mesh) (r : Relief) (b : Block) : Prop where
  first : p.first.LiesAt m r b.rows.start b.columns.start
  second : p.second.LiesAt m r b.rows.start b.columns.stop
  third : p.third.LiesAt m r b.rows.stop b.columns.stop
  fourth : p.fourth.LiesAt m r b.rows.stop b.columns.start

/-- The patch over a block stands at the block's place. -/
theorem exists_patch_of_block {m : Mesh} {r : Relief} {bs : List Block} {ps : List Patch}
    (h : List.Forall₂ (fun b p => p.Spans m r b) bs ps) {k : Nat} {b : Block}
    (hb : bs[k]? = some b) : ∃ p, ps[k]? = some p ∧ p.Spans m r b := by
  obtain ⟨hk, rfl⟩ := List.getElem?_eq_some_iff.mp hb
  have hk' := h.length_eq ▸ hk
  exact ⟨_, List.getElem?_eq_getElem hk', h.get hk hk'⟩

structure Block.Within (b : Block) (cells : Nat) : Prop where
  rows : b.rows.Within cells
  columns : b.columns.Within cells

theorem exists_ofBlock {m : Mesh} {r : Relief} {b : Block} {cells : Nat} (hb : b.Within cells)
    (hmesh : cells < m.size) (hrelief : cells < r.size) :
    ∃ p, Patch.ofBlock m r b = .ok p ∧ p.Spans m r b := by
  have hvertex {i j : Nat} (hi : i ≤ cells) (hj : j ≤ cells) :
      ∃ v, vertexAt m r i j = .ok v ∧ v.LiesAt m r i j :=
    exists_vertexAt (hi.trans_lt hmesh) (hj.trans_lt hmesh) (hi.trans_lt hrelief)
      (hj.trans_lt hrelief)
  have hi₂ := hb.rows.inside
  have hj₂ := hb.columns.inside
  have hi := hb.rows.nonempty.le.trans hi₂
  have hj := hb.columns.nonempty.le.trans hj₂
  obtain ⟨v₁, e₁, h₁⟩ := hvertex hi hj
  obtain ⟨v₂, e₂, h₂⟩ := hvertex hi hj₂
  obtain ⟨v₃, e₃, h₃⟩ := hvertex hi₂ hj₂
  obtain ⟨v₄, e₄, h₄⟩ := hvertex hi₂ hj
  refine ⟨⟨v₁, v₂, v₃, v₄⟩, ?_, ⟨h₁, h₂, h₃, h₄⟩⟩
  simp only [Patch.ofBlock, e₁, e₂, e₃, e₄]
  rfl

theorem exists_mapM {α β ε : Type} {f : α → Except ε β} {R : α → β → Prop} {xs : List α}
    (h : ∀ x ∈ xs, ∃ y, f x = .ok y ∧ R x y) : ∃ ys, xs.mapM f = .ok ys ∧ List.Forall₂ R xs ys := by
  induction xs with
  | nil => exact ⟨[], rfl, .nil⟩
  | cons x xs ih =>
    obtain ⟨y, hy, hxy⟩ := h x List.mem_cons_self
    obtain ⟨ys, hys, hxys⟩ := ih fun a ha => h a (List.mem_cons_of_mem x ha)
    refine ⟨y :: ys, ?_, .cons hxy hxys⟩
    rw [List.mapM_cons, hy, hys]
    rfl

theorem exists_patches_of_within {m : Mesh} {r : Relief} {stride cells : Nat} {bs : List Block}
    (hblocks : blocks m.size stride = .ok bs) (hbs : ∀ b ∈ bs, b.Within cells)
    (hmesh : cells < m.size) (hrelief : cells < r.size) :
    ∃ ps, patches m r stride = .ok ps ∧ List.Forall₂ (fun b p => p.Spans m r b) bs ps := by
  obtain ⟨ps, hps, hspans⟩ := exists_mapM fun b hb => exists_ofBlock (hbs b hb) hmesh hrelief
  refine ⟨ps, ?_, hspans⟩
  rw [patches, hblocks]
  exact hps

theorem exists_patches {m : Mesh} {r : Relief} (hshape : r.size = m.size) {stride cells : Nat}
    {bs : List Block} (hblocks : blocks m.size stride = .ok bs)
    (hbs : ∀ b ∈ bs, b.Within cells) (hcells : cells < m.size) :
    ∃ ps, patches m r stride = .ok ps ∧ List.Forall₂ (fun b p => p.Spans m r b) bs ps :=
  exists_patches_of_within hblocks hbs hcells (hshape ▸ hcells)

end Landscape
