import Landscape.Double.Basic
import Landscape.Proofs.Double.Reals

namespace Landscape.Double
open Float.Model Float.Model.UnpackedFloat

/-- The whole number of 32 bits nearest to a number; a half goes up, what lies outside the range goes to
its nearer end. -/
noncomputable def wholeWord (a : EReal) : ℕ :=
  if a = ⊤ then largestWord else min (round a.toReal).toNat largestWord

theorem nearestNat_eq_floor (m : ℕ) (e : ℤ) : nearestNat m e = ⌊(m : ℝ) * 2 ^ e + 1 / 2⌋₊ := by
  unfold nearestNat
  by_cases he : 0 ≤ e
  · have hwhole : (m : ℝ) * 2 ^ e = ((m * 2 ^ e.toNat : ℕ) : ℝ) := by
      push_cast
      rw [← zpow_natCast, Int.toNat_of_nonneg he]
    rw [if_pos he, Nat.shiftLeft_eq, hwhole, add_comm, Nat.floor_add_natCast (by norm_num)]
    norm_num
  · have hshift : (m : ℝ) * 2 ^ e + 1 / 2 =
        ((2 * m + 2 ^ (-e).toNat : ℕ) : ℝ) / ((2 ^ ((-e).toNat + 1) : ℕ) : ℝ) := by
      have hpow : (2 : ℝ) ^ e = (2 ^ (-e).toNat)⁻¹ := by
        rw [← zpow_natCast, Int.toNat_of_nonneg (by omega), zpow_neg, inv_inv]
      rw [hpow]
      push_cast
      field_simp
      ring
    rw [if_neg he, Nat.shiftRight_eq_div_pow, Nat.one_shiftLeft, hshift, Nat.floor_div_eq_div]

@[simp] theorem wholeWord_top : wholeWord ⊤ = largestWord := if_pos rfl

@[simp] theorem wholeWord_coe (r : ℝ) : wholeWord r = min ⌊r + 1 / 2⌋₊ largestWord := by
  rw [wholeWord, if_neg (EReal.coe_ne_top r), EReal.toReal_coe, round_eq, Int.floor_toNat]

theorem wholeWord_of_nonpos {r : ℝ} (h : r ≤ 0) : wholeWord r = 0 := by
  have hfloor : ⌊r + 1 / 2⌋₊ = 0 := Nat.floor_eq_zero.mpr (by linarith)
  rw [wholeWord_coe, hfloor, Nat.zero_min]

@[simp] theorem wholeWord_bot : wholeWord ⊥ = 0 := by
  simp [wholeWord]

theorem wholeWord_le (a : EReal) : wholeWord a ≤ largestWord := by
  unfold wholeWord
  split_ifs
  · exact le_rfl
  · exact min_le_right _ _

/-- A word is reached from one half below it on. -/
theorem le_wholeWord_iff {n : ℕ} (hn : n ≠ 0) (hle : n ≤ largestWord) {a : EReal} :
    n ≤ wholeWord a ↔ ((n - 1 / 2 : ℝ) : EReal) ≤ a := by
  induction a with
  | bot =>
    rw [wholeWord_bot]
    exact iff_of_false (by omega) (EReal.bot_lt_coe _).not_ge
  | top =>
    rw [wholeWord_top]
    exact iff_of_true hle le_top
  | coe r =>
    rw [wholeWord_coe, le_min_iff, EReal.coe_le_coe_iff, Nat.le_floor_iff' hn, sub_le_iff_le_add]
    simp [hle]

theorem wholeWord_eq_zero_iff {a : EReal} : wholeWord a = 0 ↔ a < ((1 / 2 : ℝ) : EReal) := by
  have h := le_wholeWord_iff (n := 1) (a := a) Nat.one_ne_zero (by decide)
  rw [show (((1 : ℕ) : ℝ) - 1 / 2) = 1 / 2 by norm_num] at h
  rw [← not_le, ← h]
  omega

theorem wholeWord_of_le {a : EReal} (h : ((2 ^ 32 - 3 / 2 : ℝ) : EReal) ≤ a) :
    wholeWord a = largestWord := by
  apply le_antisymm (wholeWord_le a)
  rw [le_wholeWord_iff (by decide) le_rfl]
  convert h using 2
  norm_num [largestWord]

/-- Between the two ends of the range the word is the one whole number that is no further than one half
away, with the upper of two. -/
theorem eq_wholeWord_iff {a : EReal} (hlow : ((1 / 2 : ℝ) : EReal) ≤ a)
    (hhigh : a < ((2 ^ 32 - 3 / 2 : ℝ) : EReal)) (k : ℤ) :
    k = wholeWord a ↔ ((k - 1 / 2 : ℝ) : EReal) ≤ a ∧ a < ((k + 1 / 2 : ℝ) : EReal) := by
  induction a with
  | bot => exact absurd hlow (EReal.bot_lt_coe _).not_ge
  | top => exact absurd hhigh (EReal.coe_lt_top _).not_gt
  | coe r =>
    rw [EReal.coe_le_coe_iff] at hlow
    rw [EReal.coe_lt_coe_iff] at hhigh
    have hsmall : ⌊r + 1 / 2⌋₊ ≤ largestWord := by
      apply Nat.floor_le_of_le
      norm_num [largestWord]
      linarith
    have hword : (wholeWord r : ℤ) = ⌊r + 1 / 2⌋ := by
      rw [wholeWord_coe, min_eq_left hsmall, Int.natCast_floor_eq_floor (by linarith)]
    rw [hword, EReal.coe_le_coe_iff, EReal.coe_lt_coe_iff, eq_comm, Int.floor_eq_iff,
      sub_le_iff_le_add]
    refine and_congr_right fun _ => ?_
    constructor <;> intro h <;> linarith

theorem wholeWord_mono : Monotone wholeWord := by
  intro a b h
  by_cases hzero : wholeWord a = 0
  · rw [hzero]
    exact Nat.zero_le _
  · have hreached := (le_wholeWord_iff hzero (wholeWord_le a)).mp le_rfl
    exact (le_wholeWord_iff hzero (wholeWord_le a)).mpr (hreached.trans h)

theorem nearestWordOf_eq (x : Float) : nearestWordOf (parts x) = wholeWord (value x) := by
  rcases hparts : parts x with s | _ | s | ⟨s, m, e, hm⟩
  · rw [value_of_infinity hparts]
    cases s
    · exact wholeWord_bot.symm
    · exact wholeWord_top.symm
  · have hvalue : value x = ((0 : ℝ) : EReal) := by rw [value, hparts]; rfl
    rw [hvalue, wholeWord_of_nonpos le_rfl]
    rfl
  · have hvalue : value x = ((0 : ℝ) : EReal) := by rw [value, hparts]; rfl
    rw [hvalue, wholeWord_of_nonpos le_rfl]
    rfl
  · have hpos : (0 : ℝ) < m * 2 ^ e := by positivity
    have hvalue : value x = ((factor s * (m * 2 ^ e) : ℝ) : EReal) := by rw [value, hparts]; rfl
    rw [hvalue]
    cases s
    · rw [wholeWord_of_nonpos (by simp [factor, hpos.le])]
      rfl
    · rw [factor_positive, one_mul, wholeWord_coe, ← nearestNat_eq_floor]
      rfl

theorem toNat_nearestWord (x : Float) : (nearestWord x).toNat = wholeWord (value x) := by
  rw [nearestWord, nearestWordOf_eq]
  apply UInt32.toNat_ofNat_of_lt
  exact Nat.lt_succ_of_le (wholeWord_le _)

theorem nearestWord_le_nearestWord {x y : Float} (h : x ≤ y) : nearestWord x ≤ nearestWord y := by
  rw [UInt32.le_iff_toNat_le, toNat_nearestWord, toNat_nearestWord]
  exact wholeWord_mono (le_iff.mp h).2.2

theorem le_nearestWord_iff {n : ℕ} (hn : n ≠ 0) (hle : n ≤ largestWord) {x bound : Float}
    (hbound : StandsForReal bound (n - 1 / 2)) : n ≤ (nearestWord x).toNat ↔ bound ≤ x := by
  rw [toNat_nearestWord, le_wholeWord_iff hn hle, le_iff, hbound.value_eq]
  constructor
  · intro h
    refine ⟨hbound.isNumber, ?_, h⟩
    intro hx
    rw [value_of_notANumber hx, ← EReal.coe_zero, EReal.coe_le_coe_iff] at h
    have hone : (1 : ℝ) ≤ n := by exact_mod_cast Nat.one_le_iff_ne_zero.mpr hn
    linarith
  · exact fun h => h.2.2

end Landscape.Double
