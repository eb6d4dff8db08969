import Landscape.Proofs.Relief.Axes

namespace Landscape.Span
open Double

variable {s : Span} {n i j : ℕ} {a d : ℝ}

/-- The value lies between the ends of an interval, whichever of them is larger. -/
def Between (s : Span) (x : Float) : Prop :=
  (s.start ≤ x ∧ x ≤ s.stop) ∨ (s.stop ≤ x ∧ x ≤ s.start)

/-- Samples that walk an interval: numbers, of which the first equals the start of the interval and the
next ones never turn back. -/
structure Walks (s : Span) (samples : Vector Float n) : Prop where
  isNumber : ∀ i, (samples.get i).isNaN = false
  first : ∀ h : 0 < n, (samples.get ⟨0, h⟩ == s.start) = true
  rising : s.start ≤ s.stop → ∀ i j, i ≤ j → samples.get i ≤ samples.get j
  falling : s.stop ≤ s.start → ∀ i j, i ≤ j → samples.get j ≤ samples.get i

structure RunsBy (s : Span) (n : ℕ) (a d : ℝ) : Prop where
  start : StandsForReal s.start a
  step : StandsForReal (s.step n) d
  rising : s.start ≤ s.stop → 0 ≤ d
  falling : s.stop ≤ s.start → d ≤ 0

/-- An axis of finite length has a real step, which is zero where there is no second sample. -/
theorem exists_runsBy (h : (s.stop - s.start).isFinite = true) (hsize : n < UInt64.size) :
    ∃ a d, s.RunsBy n a d := by
  obtain ⟨length, hlength⟩ := isFinite_iff.mp h
  obtain ⟨b, a, hb, ha⟩ := standsForReal_of_sub hlength
  by_cases hn : 2 ≤ n
  · obtain ⟨d, hd⟩ := (standsForReal_step_iff hn hsize).mpr h
    obtain ⟨k, hk, hsteps⟩ := standsForReal_steps hn hsize
    have hk' : 0 < k := by linarith
    have hlength' := (isRounded_sub_real hb.isNumber ha).value_eq
    rw [hlength.value_eq, hb.value_eq, ← EReal.coe_sub] at hlength'
    have hstep : s.step n = (s.stop - s.start) / ofCount (n - 1) := if_pos (by omega)
    have hd' := (isRounded_div hlength.isNumber hsteps hk'.ne').value_eq
    rw [← hstep, hd.value_eq, hlength.value_eq, ← EReal.coe_div] at hd'
    -- The exact length is rounded, and its quotient is rounded again.
    refine ⟨a, d, ha, hd, ?_, ?_⟩
    · intro hle
      have hab := (ha.le_iff hb).mp hle
      apply nonneg_of_rounded hd'
      exact div_nonneg (nonneg_of_rounded hlength' (sub_nonneg.mpr hab)) hk'.le
    · intro hle
      have hba := (hb.le_iff ha).mp hle
      apply nonpos_of_rounded hd'
      exact div_nonpos_of_nonpos_of_nonneg (nonpos_of_rounded hlength' (sub_nonpos.mpr hba)) hk'.le
  · have hstep : s.step n = 0.0 := if_neg (by omega)
    refine ⟨a, 0, ha, ?_, fun _ => le_rfl, fun _ => le_rfl⟩
    rw [hstep]
    exact standsForReal_zero

theorem RunsBy.isRounded_sample (h : s.RunsBy n a d) (hi : i ≤ UInt64.size) :
    IsRounded (s.sample n i) (a + rounded (d * nearest .binary64 i : ℝ)) := by
  have hcount := standsForReal_ofCount hi
  have hproduct := isRounded_mul h.step.isNumber hcount.isNumber
  rw [h.step.value_eq, hcount.value_eq, ← EReal.coe_mul] at hproduct
  have hproduct := hproduct (multiplies_coe _ _)
  have hsum := isRounded_add h.start.isNumber hproduct.isNumber
  rw [h.start.value_eq, hproduct.value_eq] at hsum
  exact hsum (adds_comm.mp (adds_coe a _))

theorem RunsBy.sample_le (h : s.RunsBy n a d) (hi : i ≤ UInt64.size) (hj : j ≤ UInt64.size)
    (hle : d * nearest .binary64 i ≤ d * nearest .binary64 j) : s.sample n i ≤ s.sample n j := by
  have hleft := h.isRounded_sample hi
  have hright := h.isRounded_sample hj
  refine Double.le_iff.mpr ⟨hleft.isNumber, hright.isNumber, ?_⟩
  rw [hleft.value_eq, hright.value_eq]
  apply rounded_mono
  gcongr
  exact rounded_mono (EReal.coe_le_coe_iff.mpr hle)

theorem RunsBy.first_eq (h : s.RunsBy n a d) : (s.sample n 0 == s.start) = true := by
  have hfirst := h.isRounded_sample (i := 0) (Nat.zero_le _)
  rw [Nat.cast_zero, nearest_zero, mul_zero, EReal.coe_zero, rounded_zero, add_zero] at hfirst
  refine beq_iff.mpr ⟨hfirst.isNumber, h.start.isNumber, ?_⟩
  rw [hfirst.value_eq, ← h.start.value_eq, rounded_value]

theorem walks_samples (h : (s.stop - s.start).isFinite = true) (hsize : n < UInt64.size) :
    s.Walks (s.samples n) := by
  obtain ⟨a, d, hruns⟩ := exists_runsBy h hsize
  have hcount {i : Fin n} : (i : ℕ) ≤ UInt64.size := i.isLt.le.trans hsize.le
  have hmono {i j : Fin n} (hij : i ≤ j) : nearest .binary64 i ≤ nearest .binary64 j :=
    nearest_mono _ (by exact_mod_cast hij)
  constructor
  · intro i
    rw [get_samples]
    exact isNaN_eq_false_iff.mpr (hruns.isRounded_sample hcount).isNumber
  · intro hn
    rw [get_samples]
    exact hruns.first_eq
  · intro hle i j hij
    rw [get_samples, get_samples]
    exact hruns.sample_le hcount hcount (mul_le_mul_of_nonneg_left (hmono hij) (hruns.rising hle))
  · intro hle i j hij
    rw [get_samples, get_samples]
    exact hruns.sample_le hcount hcount (mul_le_mul_of_nonpos_left (hmono hij) (hruns.falling hle))

/-- Samples that walk an interval with real ends lie between the first and the last of them. -/
theorem Walks.between {samples : Vector Float n} (h : s.Walks samples)
    (hlength : (s.stop - s.start).isFinite = true) (i : Fin n) :
    Between ⟨samples.get ⟨0, i.pos⟩, samples.get ⟨n - 1, Nat.sub_one_lt i.pos.ne'⟩⟩
      (samples.get i) := by
  obtain ⟨_, hreal⟩ := isFinite_iff.mp hlength
  obtain ⟨b, a, hb, ha⟩ := standsForReal_of_sub hreal
  have hfirst : (⟨0, i.pos⟩ : Fin n) ≤ i := Nat.zero_le _
  have hlast : i ≤ ⟨n - 1, Nat.sub_one_lt i.pos.ne'⟩ := Nat.le_sub_one_of_lt i.isLt
  rcases le_total a b with hle | hle
  · have hrising := h.rising ((ha.le_iff hb).mpr hle)
    exact .inl ⟨hrising _ _ hfirst, hrising _ _ hlast⟩
  · have hfalling := h.falling ((hb.le_iff ha).mpr hle)
    exact .inr ⟨hfalling _ _ hlast, hfalling _ _ hfirst⟩

end Landscape.Span
