import Landscape.Png.Image
import Mathlib.Data.Nat.Notation

namespace Landscape.Png

theorem get!_append_left {a b : ByteArray} {i : ℕ} (h : i < a.size) : (a ++ b).get! i = a.get! i := by
  have hdata : (a ++ b).data = a.data ++ b.data := ByteArray.data_append
  change (a ++ b).data[i]! = a.data[i]!
  rw [hdata, getElem!_def, getElem!_def, Array.getElem?_append_left h]

theorem get!_append_right (a b : ByteArray) (i : ℕ) : (a ++ b).get! (a.size + i) = b.get! i := by
  have hdata : (a ++ b).data = a.data ++ b.data := ByteArray.data_append
  change (a ++ b).data[a.data.size + i]! = b.data[i]!
  rw [hdata, getElem!_def, getElem!_def, Array.getElem?_append_right (Nat.le_add_right _ _),
    Nat.add_sub_cancel_left]

theorem extract_between (a b c : ByteArray) {i j : ℕ} (hi : i = a.size) (hj : j = a.size + b.size) :
    (a ++ (b ++ c)).extract i j = b := by
  rw [hi, hj, ← Nat.add_zero a.size, Nat.add_assoc, ByteArray.extract_append_size_add, Nat.zero_add]
  exact ByteArray.extract_append_eq_left rfl

theorem bigEndianAt_append_right (a b : ByteArray) (i : ℕ) :
    bigEndianAt (a ++ b) (a.size + i) = bigEndianAt b i := by
  simp only [bigEndianAt, Nat.add_assoc, get!_append_right]

theorem word_of_bytes (n : UInt32) :
    (n >>> 24).toUInt8.toUInt32 <<< 24 ||| (n >>> 16).toUInt8.toUInt32 <<< 16 |||
      (n >>> 8).toUInt8.toUInt32 <<< 8 ||| n.toUInt8.toUInt32 = n := by
  have hbyte (k : ℕ) : k % 256 = k % 2 ^ 8 := rfl
  have hword (k : ℕ) : k % 4294967296 = k % 2 ^ 32 := rfl
  have hbeyond (i : ℕ) (hi : 32 ≤ i) : n.toNat.testBit i = false :=
    Nat.testBit_lt_two_pow (Nat.lt_of_lt_of_le n.toNat_lt (Nat.pow_le_pow_right (by decide) hi))
  apply UInt32.toNat_inj.mp
  apply Nat.eq_of_testBit_eq
  intro i
  simp only [UInt32.toUInt32_toUInt8, UInt32.toNat_or, UInt32.toNat_shiftLeft, UInt32.toNat_mod,
    UInt32.toNat_shiftRight, UInt32.reduceToNat, Nat.reduceMod, hbyte, Nat.reducePow, hword,
    Nat.testBit_or, Nat.testBit_mod_two_pow, Nat.testBit_shiftLeft, ge_iff_le, Nat.testBit_shiftRight]
  -- What is left says from which byte bit `i` comes.
  grind

theorem bigEndianAt_bigEndian (n : UInt32) (behind : ByteArray) :
    bigEndianAt (bigEndian n ++ behind) 0 = n := by
  have hsize : (bigEndian n).size = 4 := rfl
  rw [bigEndianAt, get!_append_left (by omega), get!_append_left (by omega),
    get!_append_left (by omega), get!_append_left (by omega)]
  exact word_of_bytes n

theorem littleEndianAt_append_right (a b : ByteArray) (i : ℕ) :
    littleEndianAt (a ++ b) (a.size + i) = littleEndianAt b i := by
  simp only [littleEndianAt, Nat.add_assoc, get!_append_right]

theorem littleEndianAt_littleEndian {n : ℕ} (hn : n < 65536) (behind : ByteArray) :
    littleEndianAt (littleEndian n ++ behind) 0 = n := by
  have hsize : (littleEndian n).size = 2 := rfl
  rw [littleEndianAt, get!_append_left (by omega), get!_append_left (by omega)]
  change n % 256 + n / 256 % 256 * 256 = n
  omega

namespace Image

theorem foldl_append (parts : List ByteArray) (front : ByteArray) :
    parts.foldl (· ++ ·) front = front ++ join parts := by
  induction parts generalizing front with
  | nil => simp [join]
  | cons p parts ih =>
    have hjoin : join (p :: parts) = p ++ join parts := by
      change parts.foldl (· ++ ·) (ByteArray.empty ++ p) = _
      rw [ih, ByteArray.empty_append]
    rw [List.foldl_cons, ih, hjoin, ByteArray.append_assoc]

@[simp] theorem join_nil : join [] = ByteArray.empty := rfl

@[simp] theorem join_cons (p : ByteArray) (parts : List ByteArray) :
    join (p :: parts) = p ++ join parts := by
  rw [join, List.foldl_cons, foldl_append, ByteArray.empty_append]

@[simp] theorem join_append (parts others : List ByteArray) :
    join (parts ++ others) = join parts ++ join others := by
  induction parts with
  | nil => simp
  | cons p parts ih => simp [ih, ByteArray.append_assoc]

end Image

end Landscape.Png
