import Landscape.Proofs.Double.Results

namespace Landscape.Single
open Float.Model Float.Model.UnpackedFloat Double

def StandsForReal (x : Float32) (a : ℝ) : Prop :=
  StandsFor .binary32 x.toModel.unpack a

variable {x y : Float32} {a b : ℝ}

theorem unpack_ofModel_pack {u : UnpackedFloat} (h : StandsFor .binary32 u a)
    (ha : |a| < (2 : ℝ) ^ (128 : ℤ)) : (Float32.ofModel (.pack u)).toModel.unpack = u :=
  unpack_pack_of_standsFor h (by decide) ha

/-- A result within half of the format's range is rounded and held. -/
theorem standsForReal_ofModel {u : UnpackedFloat}
    (h : StandsFor .binary32 u (nearest .binary32 a)) (ha : |a| ≤ 2 ^ 127) :
    StandsForReal (.ofModel (.pack u)) (nearest .binary32 a) := by
  have hbound := abs_nearest_le (F := .binary32) (x := a) (n := 1) (e := 127) (by decide) (by decide)
    (by simpa using ha)
  have hlt : |nearest .binary32 a| < (2 : ℝ) ^ (128 : ℤ) := by
    refine hbound.trans_lt ?_
    norm_num
  rw [StandsForReal, unpack_ofModel_pack h hlt]
  exact h

namespace StandsForReal

theorem nearest_eq (h : StandsForReal x a) : nearest .binary32 a = a :=
  StandsFor.nearest_eq h

theorem add (hx : StandsForReal x a) (hy : StandsForReal y b) (h : |a + b| ≤ 2 ^ 127) :
    StandsForReal (x + y) (nearest .binary32 (a + b)) :=
  standsForReal_ofModel (StandsFor.add hx hy) h

theorem sub (hx : StandsForReal x a) (hy : StandsForReal y b) (h : |a - b| ≤ 2 ^ 127) :
    StandsForReal (x - y) (nearest .binary32 (a - b)) := by
  have hsub : StandsFor .binary32 (UnpackedFloat.sub .binary32 x.toModel.unpack y.toModel.unpack)
      (nearest .binary32 (a - b)) := by
    rw [Double.sub_eq_add_neg, sub_eq_add_neg a b]
    exact StandsFor.add hx (StandsFor.neg hy)
  exact standsForReal_ofModel hsub h

theorem mul (hx : StandsForReal x a) (hy : StandsForReal y b) (h : |a * b| ≤ 2 ^ 127) :
    StandsForReal (x * y) (nearest .binary32 (a * b)) :=
  standsForReal_ofModel (StandsFor.mul hx hy) h

theorem div (hx : StandsForReal x a) (hy : StandsForReal y b) (hb : b ≠ 0) (h : |a / b| ≤ 2 ^ 127) :
    StandsForReal (x / y) (nearest .binary32 (a / b)) :=
  standsForReal_ofModel (StandsFor.div hx hy hb) h

theorem lt_iff (hx : StandsForReal x a) (hy : StandsForReal y b) : x < y ↔ a < b := by
  have hlt : x < y ↔ (x.toModel.unpack.compare y.toModel.unpack == some .lt) = true :=
    decide_eq_true_iff
  rw [hlt, beq_iff_eq, compare_real hx hy, Option.some_inj, compare_lt_iff_lt]

theorem le_iff (hx : StandsForReal x a) (hy : StandsForReal y b) : x ≤ y ↔ a ≤ b := by
  have hle : x ≤ y ↔ (x.toModel.unpack.compare y.toModel.unpack).any (·.isLE) = true :=
    decide_eq_true_iff
  rw [hle, compare_real hx hy, Option.any_some, ← Ordering.ne_gt_iff_isLE, ← ne_eq, compare_le_iff_le]

theorem isNaN_eq_false (h : StandsForReal x a) : x.isNaN = false := by
  have hfinite := h.isFinite
  have hnan : x.isNaN = x.toModel.unpack.isNaN := rfl
  rw [hnan]
  rcases hparts : x.toModel.unpack with s | _ | s | ⟨s, m, e, hm⟩
  · rw [hparts] at hfinite
    cases hfinite
  · rw [hparts] at hfinite
    cases hfinite
  · rfl
  · rfl

end StandsForReal

theorem standsForReal_ofNat {n : ℕ} (hn : n < 2 ^ 24) :
    StandsForReal (.ofModel (.ofNat n)) n := by
  have hkeep : nearest .binary32 n = n := by
    have hdigits : |(n : ℤ)| < 2 ^ 24 := by
      rw [abs_of_nonneg (Int.natCast_nonneg n)]
      exact_mod_cast hn
    simpa using nearest_of_abs_lt (F := .binary32) (e := 0) hdigits (by decide)
  have hbound : |(n : ℝ)| ≤ 2 ^ 127 := by
    rw [abs_of_nonneg (Nat.cast_nonneg n)]
    have : (n : ℝ) < 2 ^ 24 := by exact_mod_cast hn
    linarith
  have h := standsFor_normalize (F := .binary32) n 0 .positive
  rw [zpow_zero, mul_one, Int.cast_natCast] at h
  have hheld := standsForReal_ofModel h hbound
  rwa [hkeep] at hheld

theorem standsForReal_toFloat32 (n : UInt8) : StandsForReal n.toFloat32 n.toNat :=
  standsForReal_ofNat (n.toNat_lt.trans (by decide))

theorem standsForReal_ofWord {w : UInt32} (h : w.toNat < 2 ^ 24) : StandsForReal w.toFloat32 w.toNat :=
  standsForReal_ofNat h

/-- A whole number with one decimal place, as it is written in a program. -/
theorem standsForReal_of_eq_ofNat {n : ℕ} (hn : n < 2 ^ 24) (h : x = .ofModel (.ofNat n)) :
    StandsForReal x n :=
  h ▸ standsForReal_ofNat hn

theorem standsForReal_zero : StandsForReal 0.0 0 := by
  simpa using standsForReal_of_eq_ofNat (x := 0.0) (n := 0) (by decide) (by decide +kernel)

theorem standsForReal_one : StandsForReal 1.0 1 := by
  simpa using standsForReal_of_eq_ofNat (x := 1.0) (n := 1) (by decide) (by decide +kernel)

theorem standsForReal_two : StandsForReal 2.0 2 := by
  simpa using standsForReal_of_eq_ofNat (x := 2.0) (n := 2) (by decide) (by decide +kernel)

theorem standsForReal_three : StandsForReal 3.0 3 := by
  simpa using standsForReal_of_eq_ofNat (x := 3.0) (n := 3) (by decide) (by decide +kernel)

theorem standsForReal_four : StandsForReal 4.0 4 := by
  simpa using standsForReal_of_eq_ofNat (x := 4.0) (n := 4) (by decide) (by decide +kernel)

theorem standsForReal_six : StandsForReal 6.0 6 := by
  simpa using standsForReal_of_eq_ofNat (x := 6.0) (n := 6) (by decide) (by decide +kernel)

theorem standsForReal_largestByte : StandsForReal 255.0 255 := by
  simpa using standsForReal_of_eq_ofNat (x := 255.0) (n := 255) (by decide) (by decide +kernel)

theorem standsForReal_half : StandsForReal 0.5 (1 / 2) := by
  have hparts : (0.5 : Float32).toModel.unpack = .finite .positive (2 ^ 23) (-24) (by decide) := rfl
  have h := standsFor_finite (F := .binary32) .positive (m := 2 ^ 23) (e := -24) (by decide) (by decide)
    (by decide) (.inl (by decide))
  norm_num at h
  rw [StandsForReal, hparts]
  exact h

/-- How far a number lies on the way from one to another is a fraction of one. -/
theorem exists_fraction {p q : Float32} {c : ℝ} (hp : StandsForReal p a) (hx : StandsForReal x b)
    (hq : StandsForReal q c) (hab : a < b) (hbc : b ≤ c) (hsmall : c - a ≤ 2 ^ 127) :
    ∃ f, StandsForReal ((x - p) / (q - p)) f ∧ 0 ≤ f ∧ f ≤ 1 := by
  have hpart := hx.sub hp (abs_le.mpr ⟨by linarith, by linarith⟩)
  have hwhole := hq.sub hp (abs_le.mpr ⟨by linarith, by linarith⟩)
  have hpos : 0 < nearest .binary32 (b - a) := nearest_sub_pos hp hx hab
  have hle : nearest .binary32 (b - a) ≤ nearest .binary32 (c - a) := nearest_mono _ (by linarith)
  have hquotient := div_le_one_of_le₀ hle (hpos.le.trans hle)
  have hquotient' := div_nonneg hpos.le (hpos.le.trans hle)
  refine ⟨_, hpart.div hwhole (hpos.trans_le hle).ne' ?_, nearest_nonneg hquotient', ?_⟩
  · rw [abs_of_nonneg hquotient']
    exact hquotient.trans (by norm_num)
  · rw [← standsForReal_one.nearest_eq]
    exact nearest_mono _ hquotient

theorem standsForReal_toSingle {z : Float} (hz : Double.StandsForReal z a) (ha : |a| ≤ 2 ^ 127) :
    StandsForReal (toSingle z) (nearest .binary32 a) := by
  refine standsForReal_ofModel ?_ ha
  rcases hz.cases with ⟨rfl, s, h⟩ | ⟨s, m, e, hm, h, rfl⟩
  · rw [h, nearest_zero]
    exact standsFor_zero _ s
  · rw [h]
    exact standsFor_round s hm e

theorem toInt_eq_floor (hx : StandsForReal x a) (ha : 0 ≤ a) (l u : ℤ) :
    x.toModel.unpack.toInt l u = ⌊a⌋ := by
  obtain ⟨hfinite, -, rfl⟩ := hx
  rcases hparts : x.toModel.unpack with s | _ | s | ⟨s, m, e, hm⟩
  · rw [hparts] at hfinite
    cases hfinite
  · rw [hparts] at hfinite
    cases hfinite
  · exact Int.floor_zero.symm
  · rw [hparts, real_finite] at ha
    cases s with
    | negative =>
      have hpos : (0 : ℝ) < m * 2 ^ e := by positivity
      rw [factor_negative] at ha
      linarith
    | positive =>
      -- Shifted to units no larger than one and back to ones, the mantissa holds the number.
      let k := (e - 0).toNat
      have hshift : ((m <<< k : ℕ) : ℝ) / 2 ^ (0 - (e - (k : ℤ))).toNat = m * 2 ^ e := by
        rw [Nat.shiftLeft_eq, div_eq_iff (by positivity)]
        push_cast
        rw [mul_assoc, ← zpow_natCast, ← zpow_natCast, ← zpow_add₀ (by norm_num)]
        congr 2
        omega
      have hholds := (holds_exact (m <<< k)).shiftRight (0 - (e - (k : ℤ))).toNat
      rw [hshift] at hholds
      rw [real_finite, factor_positive, one_mul, hholds.floor]
      rfl

/-- A byte is made of a number in its range by dropping the fraction. -/
theorem toNat_toUInt8 (hx : StandsForReal x a) (ha : 0 ≤ a) (ha' : a < 256) :
    (x.toUInt8.toNat : ℤ) = ⌊a⌋ := by
  have hfloor : 0 ≤ ⌊a⌋ := Int.floor_nonneg.mpr ha
  have hlt : ⌊a⌋ < 256 := Int.floor_lt.mpr (by exact_mod_cast ha')
  have hsize : ⌊a⌋.toNat < UInt8.size := by
    change _ < 256
    omega
  have hbyte : x.toUInt8 = UInt8.ofNatClamp (x.toModel.unpack.toInt 0 (UInt8.size - 1)).toNat := rfl
  rw [hbyte, toInt_eq_floor hx ha, UInt8.ofNatClamp, dif_pos hsize]
  exact Int.toNat_of_nonneg hfloor

end Landscape.Single
