import Landscape.Color
import Landscape.Proofs.Single.Errors

namespace Landscape.Gradient
open Single

/-- The weights of a uniform cubic B-spline, six times as large. -/
noncomputable def weight₀ (t : ℝ) : ℝ := 1 - 3 * t + 3 * (t * t) - t * t * t

@[inherit_doc weight₀]
noncomputable def weight₁ (t : ℝ) : ℝ := 4 - 6 * (t * t) + 3 * (t * t * t)

@[inherit_doc weight₀]
noncomputable def weight₂ (t : ℝ) : ℝ := 1 + 3 * t + 3 * (t * t) - 3 * (t * t * t)

@[inherit_doc weight₀]
noncomputable def weight₃ (t : ℝ) : ℝ := t * t * t

noncomputable def blend (t a₀ a₁ a₂ a₃ : ℝ) : ℝ :=
  (weight₀ t * a₀ + weight₁ t * a₁ + weight₂ t * a₂ + weight₃ t * a₃) / 6

variable {t : ℝ}

theorem sum_weights (t : ℝ) : weight₀ t + weight₁ t + weight₂ t + weight₃ t = 6 := by
  unfold weight₀ weight₁ weight₂ weight₃
  ring

section Weights

variable (ht : 0 ≤ t) (ht' : t ≤ 1)
include ht ht'

omit ht in
theorem weight₀_nonneg : 0 ≤ weight₀ t := by
  have hcube : weight₀ t = (1 - t) ^ 3 := by
    unfold weight₀
    ring
  rw [hcube]
  exact pow_nonneg (sub_nonneg.mpr ht') 3

theorem one_le_weight₁ : 1 ≤ weight₁ t := by
  have hrest : weight₁ t = 1 + 3 * (1 - t) + 3 * ((1 - t) ^ 2 * t) := by
    unfold weight₁
    ring
  have hsquare : 0 ≤ (1 - t) ^ 2 * t := by positivity
  linarith

theorem one_le_weight₂ : 1 ≤ weight₂ t := by
  have hrest : weight₂ t = 1 + 3 * t + 3 * (t ^ 2 * (1 - t)) := by
    unfold weight₂
    ring
  have hsquare : 0 ≤ t ^ 2 * (1 - t) := mul_nonneg (sq_nonneg t) (sub_nonneg.mpr ht')
  linarith

omit ht' in
theorem weight₃_nonneg : 0 ≤ weight₃ t := by
  unfold weight₃
  positivity

theorem blend_mem {a₀ a₁ a₂ a₃ l u : ℝ} (h₀ : a₀ ∈ Set.Icc l u) (h₁ : a₁ ∈ Set.Icc l u)
    (h₂ : a₂ ∈ Set.Icc l u) (h₃ : a₃ ∈ Set.Icc l u) : blend t a₀ a₁ a₂ a₃ ∈ Set.Icc l u := by
  have hsum := sum_weights t
  have hw₀ := weight₀_nonneg ht'
  have hw₁ : 0 ≤ weight₁ t := by linarith [one_le_weight₁ ht ht']
  have hw₂ : 0 ≤ weight₂ t := by linarith [one_le_weight₂ ht ht']
  have hw₃ := weight₃_nonneg ht
  have hscale (c : ℝ) : c * 6 = weight₀ t * c + weight₁ t * c + weight₂ t * c + weight₃ t * c := by
    rw [← hsum]
    ring
  unfold blend
  constructor
  · rw [le_div_iff₀ (by norm_num), hscale]
    gcongr
    · exact h₀.1
    · exact h₁.1
    · exact h₂.1
    · exact h₃.1
  · rw [div_le_iff₀ (by norm_num), hscale]
    gcongr
    · exact h₀.2
    · exact h₁.2
    · exact h₂.2
    · exact h₃.2

end Weights

section Errors

variable {u : Float32} (hu : StandsForReal u t) (ht : 0 ≤ t) (ht' : t ≤ 1)
include ht ht'

theorem powers_le : 0 ≤ t * t * t ∧ t * t * t ≤ t * t ∧ t * t ≤ 1 :=
  ⟨by positivity, mul_le_of_le_one_right (mul_nonneg ht ht) ht', mul_le_one₀ ht' ht ht'⟩

include hu

theorem near_square : Near 1 (u * u) (t * t) := by
  have habs : |t| ≤ (1 : ℕ) := by rwa [abs_of_nonneg ht, Nat.cast_one]
  exact hu.near.mul hu.near habs habs (by decide) (by decide) (by decide)

theorem near_cube : Near 2 (u * u * u) (t * t * t) := by
  have habs : |t| ≤ (1 : ℕ) := by rwa [abs_of_nonneg ht, Nat.cast_one]
  have habs' : |t * t| ≤ (1 : ℕ) := by
    rw [abs_of_nonneg (mul_nonneg ht ht), Nat.cast_one]
    exact (powers_le ht ht').2.2
  exact (near_square hu ht ht').mul hu.near habs' habs (by decide) (by decide) (by decide)

theorem near_three : Near 1 (3.0 * u) (3 * t) :=
  near_multiple standsForReal_three hu.near ht ht' (by decide) (by decide)

theorem near_three_squares : Near 5 (3.0 * (u * u)) (3 * (t * t)) :=
  near_multiple standsForReal_three (near_square hu ht ht') (mul_nonneg ht ht) (powers_le ht ht').2.2
    (by decide) (by decide)

theorem near_three_cubes : Near 9 (3.0 * (u * u * u)) (3 * (t * t * t)) := by
  obtain ⟨hnonneg, hcube, hsquare⟩ := powers_le ht ht'
  exact near_multiple standsForReal_three (near_cube hu ht ht') hnonneg (hcube.trans hsquare) (by decide)
    (by decide)

theorem near_weight₀ : Near 11 (1.0 - 3.0 * u + 3.0 * (u * u) - u * u * u) (weight₀ t) := by
  obtain ⟨hnonneg, hcube, hsquare⟩ := powers_le ht ht'
  have hline : Near 2 (1.0 - 3.0 * u) (1 - 3 * t) :=
    standsForReal_one.near.sub (near_three hu ht ht') (abs_le.mpr ⟨by linarith, by linarith⟩) (by decide)
  have hparabola : Near 8 (1.0 - 3.0 * u + 3.0 * (u * u)) (1 - 3 * t + 3 * (t * t)) :=
    hline.add (near_three_squares hu ht ht') (abs_le.mpr ⟨by linarith, by linarith⟩) (by decide)
  exact hparabola.sub (near_cube hu ht ht') (abs_le.mpr ⟨by linarith, by linarith⟩) (by decide)

theorem near_weight₁ : Near 19 (4.0 - 6.0 * (u * u) + 3.0 * (u * u * u)) (weight₁ t) := by
  obtain ⟨hnonneg, hcube, hsquare⟩ := powers_le ht ht'
  have hsix : Near 8 (6.0 * (u * u)) (6 * (t * t)) :=
    near_multiple standsForReal_six (near_square hu ht ht') (hnonneg.trans hcube) hsquare (by decide)
      (by decide)
  have hparabola : Near 9 (4.0 - 6.0 * (u * u)) (4 - 6 * (t * t)) :=
    standsForReal_four.near.sub hsix (abs_le.mpr ⟨by linarith, by linarith⟩) (by decide)
  exact hparabola.add (near_three_cubes hu ht ht') (abs_le.mpr ⟨by linarith, by linarith⟩) (by decide)

theorem near_weight₂ :
    Near 18 (1.0 + 3.0 * u + 3.0 * (u * u) - 3.0 * (u * u * u)) (weight₂ t) := by
  obtain ⟨hnonneg, hcube, hsquare⟩ := powers_le ht ht'
  have hline : Near 2 (1.0 + 3.0 * u) (1 + 3 * t) :=
    standsForReal_one.near.add (near_three hu ht ht') (abs_le.mpr ⟨by linarith, by linarith⟩) (by decide)
  have hparabola : Near 8 (1.0 + 3.0 * u + 3.0 * (u * u)) (1 + 3 * t + 3 * (t * t)) :=
    hline.add (near_three_squares hu ht ht') (abs_le.mpr ⟨by linarith, by linarith⟩) (by decide)
  exact hparabola.sub (near_three_cubes hu ht ht') (abs_le.mpr ⟨by linarith, by linarith⟩) (by decide)

end Errors

/-- A weighted value, where the weight and the value are both off. -/
theorem near_weighted {w v : Float32} {b a : ℝ} (hw : Near 19 w b) (hv : Near 6 v a)
    (hb : 0 ≤ b) (hb' : b ≤ 6) (ha : a ∈ Set.Icc 0 1) : Near 62 (w * v) (b * a) := by
  have habs : |b| ≤ (6 : ℕ) := by
    rw [abs_of_nonneg hb]
    exact_mod_cast hb'
  have habs' : |a| ≤ (1 : ℕ) := by
    rw [abs_of_nonneg ha.1, Nat.cast_one]
    exact ha.2
  exact hw.mul hv habs habs' (by decide) (by decide) (by decide)

theorem near_mean {w₀ w₁ w₂ w₃ v₀ v₁ v₂ v₃ : Float32} {b₀ b₁ b₂ b₃ a₀ a₁ a₂ a₃ : ℝ}
    (hw₀ : Near 19 w₀ b₀) (hw₁ : Near 19 w₁ b₁) (hw₂ : Near 19 w₂ b₂) (hw₃ : Near 19 w₃ b₃)
    (hb₀ : 0 ≤ b₀) (hb₁ : 0 ≤ b₁) (hb₂ : 0 ≤ b₂) (hb₃ : 0 ≤ b₃) (hsum : b₀ + b₁ + b₂ + b₃ = 6)
    (hv₀ : Near 6 v₀ a₀) (hv₁ : Near 6 v₁ a₁) (hv₂ : Near 6 v₂ a₂) (hv₃ : Near 6 v₃ a₃)
    (ha₀ : a₀ ∈ Set.Icc 0 1) (ha₁ : a₁ ∈ Set.Icc 0 1) (ha₂ : a₂ ∈ Set.Icc 0 1)
    (ha₃ : a₃ ∈ Set.Icc 0 1) :
    Near 252 ((w₀ * v₀ + w₁ * v₁ + w₂ * v₂ + w₃ * v₃) / 6.0)
      ((b₀ * a₀ + b₁ * a₁ + b₂ * a₂ + b₃ * a₃) / 6) := by
  have bounds {b a : ℝ} (hb : 0 ≤ b) (ha : a ∈ Set.Icc (0 : ℝ) 1) : 0 ≤ b * a ∧ b * a ≤ b :=
    ⟨mul_nonneg hb ha.1, mul_le_of_le_one_right hb ha.2⟩
  obtain ⟨hlower₀, hupper₀⟩ := bounds hb₀ ha₀
  obtain ⟨hlower₁, hupper₁⟩ := bounds hb₁ ha₁
  obtain ⟨hlower₂, hupper₂⟩ := bounds hb₂ ha₂
  obtain ⟨hlower₃, hupper₃⟩ := bounds hb₃ ha₃
  have h₀ := near_weighted hw₀ hv₀ hb₀ (by linarith) ha₀
  have h₁ := near_weighted hw₁ hv₁ hb₁ (by linarith) ha₁
  have h₂ := near_weighted hw₂ hv₂ hb₂ (by linarith) ha₂
  have h₃ := near_weighted hw₃ hv₃ hb₃ (by linarith) ha₃
  have htwo := h₀.add h₁ (abs_le.mpr ⟨by linarith, by linarith⟩) (by decide)
  have hthree := htwo.add h₂ (abs_le.mpr ⟨by linarith, by linarith⟩) (by decide)
  have hfour := hthree.add h₃ (abs_le.mpr ⟨by linarith, by linarith⟩) (by decide)
  exact hfour.div standsForReal_six (by norm_num) (abs_le.mpr ⟨by linarith, by linarith⟩) (by decide)

/-- The computed spline of values between zero and one is off by few steps. -/
theorem near_spline {u v₀ v₁ v₂ v₃ : Float32} {a₀ a₁ a₂ a₃ : ℝ} (hu : StandsForReal u t) (ht : 0 ≤ t)
    (ht' : t ≤ 1) (hv₀ : Near 6 v₀ a₀) (hv₁ : Near 6 v₁ a₁) (hv₂ : Near 6 v₂ a₂) (hv₃ : Near 6 v₃ a₃)
    (ha₀ : a₀ ∈ Set.Icc 0 1) (ha₁ : a₁ ∈ Set.Icc 0 1) (ha₂ : a₂ ∈ Set.Icc 0 1)
    (ha₃ : a₃ ∈ Set.Icc 0 1) :
    Near 252 (spline u v₀ v₁ v₂ v₃) (blend t a₀ a₁ a₂ a₃) := by
  have hw₀ : Near 19 _ (weight₀ t) := (near_weight₀ hu ht ht').mono (by decide)
  have hw₁ : Near 19 _ (weight₁ t) := near_weight₁ hu ht ht'
  have hw₂ : Near 19 _ (weight₂ t) := (near_weight₂ hu ht ht').mono (by decide)
  have hw₃ : Near 19 _ (weight₃ t) := (near_cube hu ht ht').mono (by decide)
  exact near_mean hw₀ hw₁ hw₂ hw₃ (weight₀_nonneg ht') (zero_le_one.trans (one_le_weight₁ ht ht'))
    (zero_le_one.trans (one_le_weight₂ ht ht')) (weight₃_nonneg ht) (sum_weights t) hv₀ hv₁ hv₂ hv₃
    ha₀ ha₁ ha₂ ha₃

end Landscape.Gradient
