import Landscape.Proofs.Double.Rounding

namespace Landscape.Double
open Float.Model Float.Model.UnpackedFloat

def greatestExponent (F : Format) : ℤ :=
  F.exponentBias - F.mantissaBitsWithoutImplicit

variable {F : Format}

theorem two_pow_exponentBits (F : Format) : 2 ^ F.exponentBits = 2 * F.exponentBias + 2 := by
  have hexponent : F.exponentBits = F.exponentBits - 1 + 1 := (Nat.sub_add_cancel F.he).symm
  have hpow : 1 ≤ 2 ^ (F.exponentBits - 1) := Nat.one_le_two_pow
  rw [hexponent, pow_succ, Format.exponentBias]
  omega

theorem minExponent_eq (F : Format) :
    F.minExponent = 1 - (F.exponentBias : ℤ) - F.mantissaBitsWithoutImplicit := by
  have hpow : 1 ≤ 2 ^ (F.exponentBits - 1) := Nat.one_le_two_pow
  rw [Format.minExponent, Format.exponentBias, mantissaBits_eq, Nat.cast_sub hpow]
  push_cast
  ring

/-- What is read from a sign, a count of exponents and the digits below the first. -/
theorem unpack_packComponents {s : Sign} {exponent : BitVec F.exponentBits}
    {mantissa : BitVec F.mantissaBitsWithoutImplicit} :
    UnpackedFloat.unpack F (packComponents F s exponent mantissa) =
      if exponent = -1#_ then if mantissa = 0#_ then .infinity s else .notANumber
      else if exponent = 0#_ then
        if h : mantissa = 0#_ then .zero s
        else .finite s mantissa.toNat F.minExponent (BitVec.toNat_pos_of_ne_zero h)
      else .finite s (2 ^ F.mantissaBitsWithoutImplicit + mantissa.toNat)
        (exponent.toNat - F.exponentBias - F.mantissaBitsWithoutImplicit) (by positivity) := by
  unfold UnpackedFloat.unpack
  simp only [unpackExponent_packComponents, unpackMantissa_packComponents, unpackSign_packComponents,
    Sign.ofBitVec_toBitVec]
  split_ifs with hlast hzero hleast hzero
  · rfl
  · rfl
  · rfl
  · congr 1
    rw [hleast, minExponent_eq, BitVec.toNat_zero]
    push_cast
    ring
  · congr 1
    · rw [BitVec.toNat_append, ← Nat.shiftLeft_add_eq_or_of_lt mantissa.isLt]
      simp [Nat.shiftLeft_eq]
    · ring

variable {s : Sign} {m : ℕ} {e : ℤ} {hm : 0 < m}

theorem unpack_pack_of_digits (hlower : 2 ^ F.mantissaBitsWithoutImplicit ≤ m)
    (hupper : m < 2 ^ F.mantissaBits) (he : F.minExponent ≤ e) (he' : e ≤ greatestExponent F) :
    UnpackedFloat.unpack F (UnpackedFloat.pack F (.finite s m e hm)) = .finite s m e hm := by
  have hcapacity := two_pow_exponentBits F
  have hmin := minExponent_eq F
  unfold greatestExponent at he'
  have hdigits : m.log2 + 1 = F.mantissaBits := by
    rw [mantissaBits_eq] at hupper ⊢
    rw [(Nat.log2_eq_iff hm.ne').mpr ⟨hlower, hupper⟩]
  let count := (e + F.exponentBias + F.mantissaBitsWithoutImplicit).toNat
  have hcount : (BitVec.ofNat F.exponentBits count).toNat = count := by
    rw [BitVec.toNat_ofNat, Nat.mod_eq_of_lt (by omega)]
  have hlast : BitVec.ofNat F.exponentBits count ≠ -1#_ := by
    rw [Ne, ← BitVec.toNat_inj, hcount, BitVec.neg_one_eq_allOnes, BitVec.toNat_allOnes]
    omega
  have hzero : BitVec.ofNat F.exponentBits count ≠ 0#_ := by
    rw [Ne, ← BitVec.toNat_inj, hcount, BitVec.toNat_zero]
    omega
  have hmantissa : (BitVec.ofNat F.mantissaBitsWithoutImplicit m).toNat =
      m - 2 ^ F.mantissaBitsWithoutImplicit := by
    rw [mantissaBits_eq, pow_succ] at hupper
    rw [BitVec.toNat_ofNat, Nat.mod_eq_sub_mod hlower, Nat.mod_eq_of_lt (by omega)]
  rw [UnpackedFloat.pack, if_neg (by omega), if_pos hdigits]
  change UnpackedFloat.unpack F (packComponents F s (BitVec.ofNat _ count) _) = _
  rw [unpack_packComponents, if_neg hlast, if_neg hzero]
  congr 1
  · rw [hmantissa]
    exact Nat.add_sub_cancel' hlower
  · rw [hcount]
    omega

theorem unpack_pack_of_lt (hupper : m < 2 ^ F.mantissaBitsWithoutImplicit)
    (he : F.minExponent ≤ greatestExponent F) :
    UnpackedFloat.unpack F (UnpackedFloat.pack F (.finite s m F.minExponent hm)) =
      .finite s m F.minExponent hm := by
  have hcapacity := two_pow_exponentBits F
  have hmin := minExponent_eq F
  unfold greatestExponent at he
  have hdigits : m.log2 + 1 ≠ F.mantissaBits := by
    have := (Nat.log2_lt hm.ne').mpr hupper
    rw [mantissaBits_eq]
    omega
  have hmantissa : (BitVec.ofNat F.mantissaBitsWithoutImplicit m).toNat = m := by
    rw [BitVec.toNat_ofNat, Nat.mod_eq_of_lt hupper]
  have hzero : BitVec.ofNat F.mantissaBitsWithoutImplicit m ≠ 0#_ := by
    rw [Ne, ← BitVec.toNat_inj, hmantissa, BitVec.toNat_zero]
    exact hm.ne'
  have hlast : 0#F.exponentBits ≠ -1#_ := by
    rw [Ne, BitVec.zero_eq_neg_one_iff]
    exact F.he.ne'
  rw [UnpackedFloat.pack, if_neg (by omega), if_neg hdigits, unpack_packComponents, if_neg hlast,
    if_pos rfl, dif_neg hzero]
  simp only [hmantissa]

/-- A datum in canonical form is read back from its bits if its exponent fits. -/
theorem unpack_pack_of_canonical (h : Canonical F (.finite s m e hm)) (he : e ≤ greatestExponent F) :
    UnpackedFloat.unpack F (UnpackedFloat.pack F (.finite s m e hm)) = .finite s m e hm := by
  obtain ⟨hupper, hmin, hdigits⟩ := h
  by_cases hlower : 2 ^ F.mantissaBitsWithoutImplicit ≤ m
  · exact unpack_pack_of_digits hlower hupper hmin he
  · obtain rfl : e = F.minExponent := hdigits.resolve_left hlower
    exact unpack_pack_of_lt (not_le.mp hlower) he

/-- A number below the first power of two that the format does not hold has an exponent that fits. -/
theorem le_greatestExponent (h : Canonical F (.finite s m e hm)) (hF : F.minExponent ≤ greatestExponent F)
    (hlt : m * 2 ^ e < (2 : ℝ) ^ (greatestExponent F + F.mantissaBits)) : e ≤ greatestExponent F := by
  by_contra hlarge
  have hdigits : (2 : ℝ) ^ F.mantissaBitsWithoutImplicit ≤ m := by
    exact_mod_cast h.2.2.resolve_right (by omega)
  apply hlt.not_ge
  calc
    (2 : ℝ) ^ (greatestExponent F + F.mantissaBits)
        = 2 ^ F.mantissaBitsWithoutImplicit * 2 ^ (greatestExponent F + 1) := by
      rw [mantissaBits_eq, ← zpow_natCast, ← zpow_add₀ (by norm_num)]
      congr 1
      push_cast
      ring
    _ ≤ m * 2 ^ e := by
      gcongr
      · norm_num
      · omega

/-- What stands for a real number of the format's range is read back from its bits. -/
theorem unpack_pack_of_standsFor {u : UnpackedFloat} {a : ℝ} (h : StandsFor F u a)
    (hF : F.minExponent ≤ greatestExponent F)
    (ha : |a| < (2 : ℝ) ^ (greatestExponent F + F.mantissaBits)) :
    UnpackedFloat.unpack F (UnpackedFloat.pack F u) = u := by
  obtain ⟨hfinite, hcanonical, rfl⟩ := h
  rcases u with s | _ | s | ⟨s, m, e, hm⟩
  · cases hfinite
  · cases hfinite
  · exact unpack_packedZero
  · have habs : |real (.finite s m e hm)| = m * 2 ^ e := by
      have hpos : (0 : ℝ) ≤ m * 2 ^ e := by positivity
      cases s <;> simp [real, abs_of_nonneg hpos]
    rw [habs] at ha
    exact unpack_pack_of_canonical hcanonical (le_greatestExponent hcanonical hF ha)

end Landscape.Double
