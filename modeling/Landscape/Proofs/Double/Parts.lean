import Landscape.Double.Basic
import Mathlib

namespace Landscape.Double
open Float.Model Float.Model.UnpackedFloat

theorem toNat_unpackMantissa (bits : UInt64) :
    (@unpackMantissa .binary64 bits.toBitVec).toNat = mantissaBits bits := by
  simp only [unpackMantissa, BitVec.extractLsb_toNat, BitVec.toNat_cast, Nat.shiftRight_zero,
    mantissaBits, UInt64.toNat_and]
  exact (Nat.and_two_pow_sub_one_eq_mod _ 52).symm

theorem toNat_unpackExponent (bits : UInt64) :
    (@unpackExponent .binary64 bits.toBitVec).toNat = exponentBits bits := by
  simp only [unpackExponent, BitVec.extractLsb_toNat, BitVec.toNat_cast, exponentBits,
    UInt64.toNat_and, UInt64.toNat_shiftRight]
  exact (Nat.and_two_pow_sub_one_eq_mod _ 11).symm

theorem ofBitVec_unpackSign (bits : UInt64) :
    Sign.ofBitVec (@unpackSign .binary64 bits.toBitVec) = signBit bits := by
  have h : (@unpackSign .binary64 bits.toBitVec).toNat = (bits >>> 63).toNat := by
    simp [unpackSign, UInt64.toNat_shiftRight]
    have := bits.toNat_lt
    omega
  have h' : @unpackSign .binary64 bits.toBitVec = 0#1 ↔ bits >>> 63 = 0 := by
    rw [← BitVec.toNat_inj, h, ← UInt64.toNat_inj]
    rfl
  simp only [Sign.ofBitVec, signBit, h']

theorem parts_eq_unpack (x : Float) : parts x = x.toModel.unpack := by
  have he := toNat_unpackExponent x.toBits
  have e1 : @unpackExponent .binary64 x.toBits.toBitVec = -1#_ ↔
      exponentBits x.toBits = 2047 := by
    rw [← he, ← BitVec.toNat_inj]
    rfl
  have e0 : @unpackExponent .binary64 x.toBits.toBitVec = 0#_ ↔
      exponentBits x.toBits = 0 := by
    rw [← he, ← BitVec.toNat_inj]
    rfl
  have hm := toNat_unpackMantissa x.toBits
  have m0 : @unpackMantissa .binary64 x.toBits.toBitVec = 0#_ ↔
      mantissaBits x.toBits = 0 := by
    rw [← hm, ← BitVec.toNat_inj]
    rfl
  change _ = UnpackedFloat.unpack Format.binary64 x.toBits.toBitVec
  simp only [parts, UnpackedFloat.unpack, e1, e0, m0, ofBitVec_unpackSign, hm, he]
  split
  · rfl
  · split
    · split
      · rfl
      · rename_i h _
        congr 1
        rw [h]
        decide
    · congr 1
      have hlt := (@unpackMantissa .binary64 x.toBits.toBitVec).isLt
      rw [BitVec.toNat_append, ← Nat.shiftLeft_add_eq_or_of_lt hlt, hm, Nat.add_comm]
      rfl

end Landscape.Double
