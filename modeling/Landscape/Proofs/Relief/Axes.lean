import Landscape.Proofs.Double.Reals
import Landscape.Relief

namespace Landscape.Span
open Double

variable {s : Span} {n : ℕ}

theorem get_samples (s : Span) (i : Fin n) : (s.samples n).get i = s.sample n i := by
  simp [samples, sample]

theorem standsForReal_steps (hn : 2 ≤ n) (hsize : n < UInt64.size) :
    ∃ k : ℝ, 1 ≤ k ∧ StandsForReal (ofCount (n - 1)) k := by
  have hcast : (1 : ℝ) ≤ (n - 1 : ℕ) := by exact_mod_cast (by omega : 1 ≤ n - 1)
  exact ⟨_, one_le_nearest hcast, standsForReal_ofCount (by omega)⟩

/-- The step is real exactly when the length is. -/
theorem standsForReal_step_iff (hn : 2 ≤ n) (hsize : n < UInt64.size) :
    (∃ d, StandsForReal (s.step n) d) ↔ (s.stop - s.start).isFinite = true := by
  obtain ⟨k, hk, hsteps⟩ := standsForReal_steps hn hsize
  rw [step, if_pos (by omega), isFinite_iff]
  constructor
  · rintro ⟨d, hd⟩
    exact standsForReal_of_div hd hsteps (by linarith)
  · rintro ⟨d, hd⟩
    exact standsForReal_div hd hsteps hk

theorem isNumber_sample (h : (s.stop - s.start).isFinite = true) (hn : 2 ≤ n)
    (hsize : n < UInt64.size) {i : ℕ} (hi : i ≤ n) : IsNumber (s.sample n i) := by
  obtain ⟨d, hd⟩ := (standsForReal_step_iff hn hsize).mpr h
  obtain ⟨length, hlength⟩ := isFinite_iff.mp h
  obtain ⟨_, a, -, ha⟩ := standsForReal_of_sub hlength
  have hi' := standsForReal_ofCount (n := i) (by omega)
  apply isNumber_add_of_real ha
  rw [isNumber_mul_iff, hd.value_eq, hi'.value_eq]
  exact ⟨hd.isNumber, hi'.isNumber, multiplies_coe _ _⟩

theorem isFinite_of_isNumber_first (hn : 2 ≤ n) (hsize : n < UInt64.size)
    (h : IsNumber (s.sample n 0)) : (s.stop - s.start).isFinite = true := by
  rw [← standsForReal_step_iff hn hsize]
  have hproduct := (isNumber_add_iff.mp h).2.1
  obtain ⟨hstep, -, hmultiplies⟩ := isNumber_mul_iff.mp hproduct
  have hzero : StandsForReal (ofCount 0) 0 := by
    have h := standsForReal_ofCount (n := 0) (Nat.zero_le _)
    rwa [Nat.cast_zero, nearest_zero] at h
  cases hstep.kind with
  | real d h => exact ⟨d, h⟩
  | infinity t h =>
    -- The first sample adds the step times zero.
    rw [value_of_infinity h, hzero.value_eq, multiplies_comm, multiplies_coe_endOf] at hmultiplies
    exact absurd rfl hmultiplies

theorem isNumber_samples_iff (hn : 2 ≤ n) (hsize : n < UInt64.size) :
    (∀ i : Fin n, IsNumber ((s.samples n).get i)) ↔ (s.stop - s.start).isFinite = true := by
  simp only [get_samples]
  constructor
  · intro h
    exact isFinite_of_isNumber_first hn hsize (h ⟨0, by omega⟩)
  · intro h i
    exact isNumber_sample h hn hsize i.isLt.le

end Landscape.Span
