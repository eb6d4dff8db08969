import Landscape.Patch
import Mathlib.Algebra.Order.Floor.Div

namespace Landscape

/-- The `k`-th drawn line of an axis of `cells` unit steps. -/
def line (cells stride k : Nat) : Nat :=
  min (k * stride) cells

def Strip.Contains (s : Strip) (p : Nat) : Prop :=
  s.start ≤ p ∧ p < s.stop

structure Strip.Within (s : Strip) (cells : Nat) : Prop where
  nonempty : s.start < s.stop
  inside : s.stop ≤ cells

theorem getElem?_stripsFrom {stride : Nat} (hs : 0 < stride) (cells i k : Nat) :
    (stripsFrom cells stride i)[k]? =
      if i + k * stride < cells then some ⟨i + k * stride, min (i + (k + 1) * stride) cells⟩
      else none := by
  -- Induction on the loop: strip `k + 1` from a line on is strip `k` from the next line on.
  fun_induction stripsFrom cells stride i generalizing k with
  | case1 i h ih =>
    cases k with
    | zero => simp [h.2]
    | succ k =>
      have hk (n : Nat) : i + stride + n * stride = i + (n + 1) * stride := by
        rw [Nat.succ_mul]
        omega
      rw [List.getElem?_cons_succ, ih, hk, hk]
  | case2 i h =>
    have hi : cells ≤ i := by omega
    rw [if_neg (by omega)]
    rfl

theorem lt_ceilDiv_iff {stride : Nat} (hs : 0 < stride) {cells k : Nat} :
    k < cells ⌈/⌉ stride ↔ k * stride < cells := by
  rw [← not_le, ceilDiv_le_iff_le_mul hs, not_le, Nat.mul_comm]

/-- There is a strip for every stride begun. -/
theorem length_strips {stride : Nat} (hs : 0 < stride) (cells : Nat) :
    (strips cells stride).length = cells ⌈/⌉ stride := by
  apply eq_of_forall_ge_iff
  intro k
  rw [← List.getElem?_eq_none_iff, strips, getElem?_stripsFrom hs, ← not_lt, lt_ceilDiv_iff hs]
  simp

theorem getElem?_strips {stride : Nat} (hs : 0 < stride) {cells k : Nat}
    (hk : k < cells ⌈/⌉ stride) :
    (strips cells stride)[k]? = some ⟨line cells stride k, line cells stride (k + 1)⟩ := by
  have h := (lt_ceilDiv_iff hs).mp hk
  rw [strips, getElem?_stripsFrom hs, Nat.zero_add, Nat.zero_add, if_pos h]
  simp only [line, Nat.min_eq_left (Nat.le_of_lt h)]

theorem strip_within {stride : Nat} (hs : 0 < stride) {cells k : Nat}
    (hk : k < cells ⌈/⌉ stride) :
    Strip.Within ⟨line cells stride k, line cells stride (k + 1)⟩ cells := by
  have h := (lt_ceilDiv_iff hs).mp hk
  have hmul : (k + 1) * stride = k * stride + stride := Nat.succ_mul k stride
  refine ⟨?_, Nat.min_le_right _ _⟩
  simp only [line]
  omega

theorem line_zero (cells stride : Nat) : line cells stride 0 = 0 := by
  rw [line, Nat.zero_mul, Nat.zero_min]

theorem line_mono (cells stride : Nat) : Monotone (line cells stride) := by
  intro i j h
  exact min_le_min_right cells (Nat.mul_le_mul_right stride h)

theorem line_succ {cells stride k : Nat} (hs : 0 < stride) (hk : k < cells ⌈/⌉ stride) :
    line cells stride (k + 1) = min (line cells stride k + stride) cells := by
  have hlt := (lt_ceilDiv_iff hs).mp hk
  rw [line, line, Nat.min_eq_left hlt.le, Nat.succ_mul]

theorem exists_line_of_mem_strips {s : Strip} {cells stride : Nat} (hs : 0 < stride)
    (hmem : s ∈ strips cells stride) :
    ∃ k < cells ⌈/⌉ stride, s = ⟨line cells stride k, line cells stride (k + 1)⟩ := by
  obtain ⟨k, hk⟩ := List.mem_iff_getElem?.mp hmem
  have hcount : k < cells ⌈/⌉ stride := by
    rw [← length_strips hs]
    exact (List.getElem?_eq_some_iff.mp hk).1
  rw [getElem?_strips hs hcount] at hk
  exact ⟨k, hcount, (Option.some.inj hk).symm⟩

/-- The last line is the end of the axis, whether or not the stride divides it. -/
theorem line_ceilDiv {stride : Nat} (hs : 0 < stride) (cells : Nat) :
    line cells stride (cells ⌈/⌉ stride) = cells := by
  have h : cells ≤ stride * (cells ⌈/⌉ stride) := (ceilDiv_le_iff_le_mul hs).mp le_rfl
  rw [line, Nat.mul_comm, Nat.min_eq_right h]

theorem div_lt_ceilDiv {stride : Nat} (hs : 0 < stride) {cells p : Nat} (hp : p < cells) :
    p / stride < cells ⌈/⌉ stride :=
  (lt_ceilDiv_iff hs).mpr ((Nat.div_mul_le_self p stride).trans_lt hp)

theorem contains_strip_iff {stride : Nat} (hs : 0 < stride) {cells p : Nat} (hp : p < cells)
    (k : Nat) :
    Strip.Contains ⟨line cells stride k, line cells stride (k + 1)⟩ p ↔ k = p / stride := by
  have hdiv : k = p / stride ↔ k * stride ≤ p ∧ p < (k + 1) * stride := by
    rw [eq_comm, Nat.div_eq_iff hs]
    have : (k + 1) * stride = k * stride + stride := Nat.succ_mul k stride
    omega
  rw [hdiv]
  simp only [Strip.Contains, line]
  omega

end Landscape
