import Landscape.Color
import Landscape.Proofs.Single.Errors

namespace Landscape
open Single
open Double (nearest nearest_mono nearest_of_abs_lt)

inductive Channel where
  | red
  | green
  | blue

namespace Channel

def byte : Channel → Color → UInt8
  | .red, c => c.red
  | .green, c => c.green
  | .blue, c => c.blue

def part : Channel → Tint → Float32
  | .red, t => t.red
  | .green, t => t.green
  | .blue, t => t.blue

variable (k : Channel)

@[simp] theorem part_ofColor (c : Color) : k.part (Tint.ofColor c) = (k.byte c).toFloat32 / 255.0 := by
  cases k <;> rfl

@[simp] theorem part_beyond (s t : Tint) : k.part (Tint.beyond s t) = 2.0 * k.part s - k.part t := by
  cases k <;> rfl

@[simp] theorem part_zip (f : Float32 → Float32 → Float32 → Float32 → Float32) (a b c d : Tint) :
    k.part (Tint.zip f a b c d) = f (k.part a) (k.part b) (k.part c) (k.part d) := by
  cases k <;> rfl

@[simp] theorem byte_toColor (t : Tint) : k.byte t.toColor = Tint.channelByte (k.part t) := by
  cases k <;> rfl

end Channel

def fractions (l u : ℕ) : Set ℝ := Set.Icc (l / 255) (u / 255)

variable {l u : ℕ} {x : Float32} {a : ℝ}

theorem fractions_subset (hu : u ≤ 255) : fractions l u ⊆ Set.Icc 0 1 := by
  have hcast : (u : ℝ) ≤ 255 := by exact_mod_cast hu
  apply Set.Icc_subset_Icc
  · positivity
  · linarith

theorem near_byte (b : UInt8) : Near 1 (b.toFloat32 / 255.0) (b.toNat / 255) := by
  have hlt : (b.toNat : ℝ) < 256 := by exact_mod_cast b.toNat_lt
  refine (standsForReal_toFloat32 b).near.div standsForReal_largestByte (by norm_num) ?_ (by decide)
  rw [abs_of_nonneg (by positivity)]
  linarith

theorem near_beyond {x y : Float32} {a b : ℝ} (hx : Near 1 x a) (hy : Near 1 y b)
    (ha : a ∈ Set.Icc 0 1) (hb : b ∈ Set.Icc 0 1) : Near 6 (2.0 * x - y) (2 * a - b) := by
  obtain ⟨ha, ha'⟩ := ha
  obtain ⟨hb, hb'⟩ := hb
  have hdouble : Near 4 (2.0 * x) (2 * a) := near_multiple standsForReal_two hx ha ha' (by decide) (by decide)
  exact hdouble.sub hy (abs_le.mpr ⟨by linarith, by linarith⟩) (by decide)

theorem nearest_quarters {n : ℤ} (hn : |n| < 2 ^ 24) : nearest .binary32 (n / 4) = n / 4 := by
  have h := nearest_of_abs_lt (F := .binary32) (e := -2) hn (by decide)
  norm_num [div_eq_mul_inv] at h ⊢
  exact h

theorem nearest_mem_quarters {n n' : ℤ} (hn : |n| < 2 ^ 24) (hn' : |n'| < 2 ^ 24)
    (h : a ∈ Set.Icc (n / 4 : ℝ) (n' / 4)) : nearest .binary32 a ∈ Set.Icc (n / 4 : ℝ) (n' / 4) := by
  constructor
  · rw [← nearest_quarters hn]
    exact nearest_mono _ h.1
  · rw [← nearest_quarters hn']
    exact nearest_mono _ h.2

/-- A quarter is room for the error, and one half more makes dropping the fraction a rounding. -/
theorem channelByte_mem_of_scaled (hx : StandsForReal x a) (hu : u ≤ 255)
    (hscaled : a * 255 ∈ Set.Icc (((4 * l - 1 : ℤ) : ℝ) / 4) (((4 * u + 1 : ℤ) : ℝ) / 4)) :
    l ≤ (Tint.channelByte x).toNat ∧ (Tint.channelByte x).toNat ≤ u := by
  have hl : (0 : ℝ) ≤ l := Nat.cast_nonneg l
  have hu' : (u : ℝ) ≤ 255 := by exact_mod_cast hu
  have hle : (4 * l - 1 : ℤ) ≤ 4 * u + 1 := by
    have hlu := hscaled.1.trans hscaled.2
    rw [div_le_div_iff_of_pos_right (by norm_num)] at hlu
    exact_mod_cast hlu
  have hdigits : |(4 * l - 1 : ℤ)| < 2 ^ 24 ∧ |(4 * u + 1 : ℤ)| < 2 ^ 24 ∧
      |(4 * l + 1 : ℤ)| < 2 ^ 24 ∧ |(4 * u + 3 : ℤ)| < 2 ^ 24 := by
    simp only [abs_lt]
    omega
  have hscaled' := nearest_mem_quarters hdigits.1 hdigits.2.1 hscaled
  push_cast at hscaled
  have hmul := hx.mul standsForReal_largestByte
    (abs_le.mpr ⟨by linarith [hscaled.1], by linarith [hscaled.2]⟩)
  generalize nearest .binary32 (a * 255) = y at hscaled' hmul
  have hshifted : y + 1 / 2 ∈ Set.Icc (((4 * l + 1 : ℤ) : ℝ) / 4) (((4 * u + 3 : ℤ) : ℝ) / 4) := by
    push_cast at hscaled' ⊢
    constructor
    · linarith [hscaled'.1]
    · linarith [hscaled'.2]
  have hshifted' := nearest_mem_quarters hdigits.2.2.1 hdigits.2.2.2 hshifted
  push_cast at hshifted hshifted'
  have hadd := hmul.add standsForReal_half
    (abs_le.mpr ⟨by linarith [hshifted.1], by linarith [hshifted.2]⟩)
  generalize nearest .binary32 (y + 1 / 2) = z at hshifted' hadd
  obtain ⟨hz, hz'⟩ := hshifted'
  have hfloor := toNat_toUInt8 hadd (by linarith) (by linarith)
  have hlow : (l : ℤ) ≤ ⌊z⌋ := Int.le_floor.mpr (by push_cast; linarith)
  have hhigh : ⌊z⌋ < (u : ℤ) + 1 := Int.floor_lt.mpr (by push_cast; linarith)
  unfold Tint.channelByte
  omega

/-- A channel that is off by less than a thousand steps comes out between the bytes between which it
should lie. -/
theorem channelByte_mem {n : ℕ} (hx : Near n x a) (hn : n ≤ 1000) (ha : a ∈ fractions l u) (hu : u ≤ 255) :
    l ≤ (Tint.channelByte x).toNat ∧ (Tint.channelByte x).toNat ≤ u := by
  obtain ⟨b, hb, herror⟩ := hx
  obtain ⟨hlower, hupper⟩ := ha
  obtain ⟨hbelow, habove⟩ := abs_le.mp herror
  have hsmall : n * step ≤ 1 / 1020 := by
    have hcast : (n : ℝ) ≤ 1000 := by exact_mod_cast hn
    rw [step_eq]
    linarith
  apply channelByte_mem_of_scaled hb hu
  push_cast
  constructor <;> linarith

end Landscape
