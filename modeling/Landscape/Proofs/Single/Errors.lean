import Landscape.Proofs.Single.Values

namespace Landscape.Single
open Float.Model Double

/-- The most by which one rounding moves a number below sixteen. -/
noncomputable def step : ℝ := 1 / (2 ^ 21 : ℕ)

/-- The single precision number stands for one that lies at most `n` steps away. -/
def Near (n : ℕ) (x : Float32) (a : ℝ) : Prop :=
  ∃ b, StandsForReal x b ∧ |b - a| ≤ n * step

variable {x y : Float32} {a b c : ℝ} {m n : ℕ}

theorem step_eq : step = 1 / 2 ^ 21 := by
  norm_num [step]

theorem step_nonneg : 0 ≤ step := by
  rw [step_eq]
  positivity

theorem StandsForReal.near (h : StandsForReal x a) : Near 0 x a :=
  ⟨a, h, by simp⟩

theorem Near.mono (h : Near m x a) (hmn : m ≤ n) : Near n x a := by
  obtain ⟨b, hb, herror⟩ := h
  refine ⟨b, hb, herror.trans ?_⟩
  have hstep := step_nonneg
  gcongr

theorem abs_nearest_sub_le_step (h : |a| < 16) : |nearest .binary32 a - a| ≤ step := by
  have hlog : Int.log 2 |a| < 4 := by
    rcases (abs_nonneg a).lt_or_eq with hpos | hzero
    · exact (Int.lt_zpow_iff_log_lt (by decide) hpos).mp (by norm_num; exact h)
    · rw [← hzero, Int.log_zero_right]
      decide
  have hbits : Format.binary32.mantissaBits = 24 := rfl
  have hmin : Format.binary32.minExponent = -149 := rfl
  have hplace : place .binary32 a ≤ -20 := by
    unfold place
    omega
  calc
    |nearest .binary32 a - a| ≤ 2 ^ place .binary32 a / 2 := abs_nearest_sub_le a
    _ ≤ 2 ^ (-20 : ℤ) / 2 := by
      gcongr
      norm_num
    _ = step := by
      rw [step_eq]
      norm_num

/-- Few steps change the size of a number by less than one. -/
theorem abs_le_of_off (h : |c - a| ≤ n * step) (hn : n ≤ 2 ^ 20) : |c| ≤ |a| + 1 := by
  have hcast : (n : ℝ) ≤ 2 ^ 20 := by exact_mod_cast hn
  have hsmall : n * step ≤ 1 := by
    rw [step_eq]
    linarith
  have hsum : |c| ≤ |c - a| + |a| := by simpa using abs_add_le (c - a) a
  linarith

/-- An exact result on operands that are off, and its rounding. -/
theorem near_of_result (hx : |c| ≤ 2 ^ 127 → StandsForReal x (nearest .binary32 c)) (ha : |a| ≤ 14)
    (h : |c - a| ≤ n * step) (hn : n ≤ 2 ^ 20) : Near (n + 1) x a := by
  have hlt : |c| < 16 := by linarith [abs_le_of_off h hn]
  refine ⟨_, hx (by linarith), ?_⟩
  calc
    |nearest .binary32 c - a| ≤ |nearest .binary32 c - c| + |c - a| := abs_sub_le _ _ _
    _ ≤ step + n * step := add_le_add (abs_nearest_sub_le_step hlt) h
    _ = (n + 1 : ℕ) * step := by
      push_cast
      ring

theorem Near.add (hx : Near m x a) (hy : Near n y b) (h : |a + b| ≤ 14) (hmn : m + n ≤ 2 ^ 20) :
    Near (m + n + 1) (x + y) (a + b) := by
  obtain ⟨a', ha, herror⟩ := hx
  obtain ⟨b', hb, herror'⟩ := hy
  have hoff : |a' + b' - (a + b)| ≤ (m + n : ℕ) * step := by
    calc
      |a' + b' - (a + b)| = |(a' - a) + (b' - b)| := by ring_nf
      _ ≤ m * step + n * step := (abs_add_le _ _).trans (add_le_add herror herror')
      _ = (m + n : ℕ) * step := by
        push_cast
        ring
  exact near_of_result (ha.add hb) h hoff hmn

theorem Near.sub (hx : Near m x a) (hy : Near n y b) (h : |a - b| ≤ 14) (hmn : m + n ≤ 2 ^ 20) :
    Near (m + n + 1) (x - y) (a - b) := by
  obtain ⟨a', ha, herror⟩ := hx
  obtain ⟨b', hb, herror'⟩ := hy
  have hoff : |a' - b' - (a - b)| ≤ (m + n : ℕ) * step := by
    calc
      |a' - b' - (a - b)| = |(a' - a) - (b' - b)| := by ring_nf
      _ ≤ m * step + n * step := (abs_sub _ _).trans (add_le_add herror herror')
      _ = (m + n : ℕ) * step := by
        push_cast
        ring
  exact near_of_result (ha.sub hb) h hoff hmn

/-- In a product each operand's error counts as often as the other operand is large. -/
theorem Near.mul {A B : ℕ} (hx : Near m x a) (hy : Near n y b) (ha : |a| ≤ A) (hb : |b| ≤ B)
    (hAB : A * B ≤ 14) (hm : m ≤ 2 ^ 20) (hmn : (A + 1) * n + B * m ≤ 2 ^ 20) :
    Near ((A + 1) * n + B * m + 1) (x * y) (a * b) := by
  obtain ⟨a', ha', herror⟩ := hx
  obtain ⟨b', hb', herror'⟩ := hy
  have hlarge : |a'| ≤ A + 1 := by linarith [abs_le_of_off herror hm]
  have hstep := step_nonneg
  have hoff : |a' * b' - a * b| ≤ ((A + 1) * n + B * m : ℕ) * step := by
    calc
      |a' * b' - a * b| = |a' * (b' - b) + (a' - a) * b| := by ring_nf
      _ ≤ |a'| * |b' - b| + |a' - a| * |b| := by
        rw [← abs_mul, ← abs_mul]
        exact abs_add_le _ _
      _ ≤ (A + 1) * (n * step) + m * step * B := by gcongr
      _ = ((A + 1) * n + B * m : ℕ) * step := by
        push_cast
        ring
  have hbound : |a * b| ≤ 14 := by
    rw [abs_mul]
    calc
      |a| * |b| ≤ A * B := by gcongr
      _ ≤ 14 := by exact_mod_cast hAB
  exact near_of_result (ha'.mul hb') hbound hoff hmn

theorem near_multiple {k : ℕ} (hx : StandsForReal x k) (hy : Near n y a)
    (ha : 0 ≤ a) (ha' : a ≤ 1) (hk : k ≤ 14) (hn : (k + 1) * n ≤ 2 ^ 20) :
    Near ((k + 1) * n + 1) (x * y) (k * a) := by
  have habs : |a| ≤ (1 : ℕ) := by rwa [abs_of_nonneg ha, Nat.cast_one]
  have habs' : |(k : ℝ)| ≤ k := by rw [abs_of_nonneg (Nat.cast_nonneg k)]
  exact hx.near.mul hy habs' habs (by omega) (by decide) (by omega)

/-- Dividing by a number that is not below one makes no error larger. -/
theorem Near.div (hx : Near m x a) (hy : StandsForReal y b) (hb : 1 ≤ b) (h : |a / b| ≤ 14)
    (hm : m ≤ 2 ^ 20) : Near (m + 1) (x / y) (a / b) := by
  obtain ⟨a', ha, herror⟩ := hx
  have hpos : 0 < b := by linarith
  have hoff : |a' / b - a / b| ≤ m * step := by
    calc
      |a' / b - a / b| = |a' - a| / b := by rw [← sub_div, abs_div, abs_of_pos hpos]
      _ ≤ |a' - a| := div_le_self (abs_nonneg _) hb
      _ ≤ m * step := herror
  exact near_of_result (ha.div hy hpos.ne') h hoff hm

end Landscape.Single
