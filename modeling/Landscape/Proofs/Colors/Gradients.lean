import Landscape.Proofs.Colors.Channels
import Landscape.Proofs.Colors.Splines

namespace Landscape.Gradient
open Single
open Double (nearest nearest_mono nearest_nonneg)

def byteAt (g : Gradient) (k : Channel) (i : ℕ) : ℕ :=
  (g.stops[i]?.map fun c => (k.byte c).toNat).getD 0

/-- The bytes of a channel lie between two, at every stop and where the gradient goes on past its ends. -/
structure Within (g : Gradient) (k : Channel) (l u : ℕ) : Prop where
  isByte : u ≤ 255
  stops : ∀ i < g.stops.size, l ≤ g.byteAt k i ∧ g.byteAt k i ≤ u
  first : l + g.byteAt k 1 ≤ 2 * g.byteAt k 0 ∧ 2 * g.byteAt k 0 ≤ u + g.byteAt k 1
  last : l + g.byteAt k (g.stops.size - 2) ≤ 2 * g.byteAt k (g.stops.size - 1) ∧
    2 * g.byteAt k (g.stops.size - 1) ≤ u + g.byteAt k (g.stops.size - 2)

/-- A gradient of at least two stops, and of no more than single precision counts exactly. -/
structure Sized (g : Gradient) : Prop where
  two_le : 2 ≤ g.stops.size
  le_counts : g.stops.size ≤ 2 ^ 24

variable {g : Gradient} {k : Channel} {l u : ℕ} {i : ℕ} {t : Float32} {a : ℝ}

/-- All stops before the one that is found lie before the place, and it does not, unless it is the last. -/
theorem firstFrom_spec (g : Gradient) (t : Float32) (i n : ℕ) :
    g.firstFrom t i n ≤ i + n ∧ (∀ j, i ≤ j → j < g.firstFrom t i n → g.position j < t) ∧
      (g.firstFrom t i n < i + n → ¬ g.position (g.firstFrom t i n) < t) := by
  induction n generalizing i with
  | zero => exact ⟨le_rfl, fun j hj hlt => absurd hlt hj.not_gt, fun h => absurd h (lt_irrefl i)⟩
  | succ n ih =>
    rw [firstFrom]
    split_ifs with hbefore
    · obtain ⟨hle, hpassed, hfound⟩ := ih (i + 1)
      refine ⟨by omega, ?_, fun h => hfound (by omega)⟩
      intro j hj hlt
      rcases hj.eq_or_lt with rfl | hj
      · exact hbefore
      · exact hpassed j hj hlt
    · exact ⟨by omega, fun j hj hlt => absurd hlt hj.not_gt, fun _ => hbefore⟩

theorem standsForReal_count {n : ℕ} (hn : n < 2 ^ 24) : StandsForReal n.toUInt32.toFloat32 n := by
  have hword : n.toUInt32.toNat = n := Nat.mod_eq_of_lt (hn.trans (by decide))
  have h := standsForReal_ofWord (w := n.toUInt32) (hword.symm ▸ hn)
  rwa [hword] at h

section Positions

variable (hg : g.Sized)
include hg

theorem standsForReal_position (hi : i < g.stops.size) :
    StandsForReal (g.position i) (nearest .binary32 (i / (g.stops.size - 1 : ℕ))) := by
  have htwo := hg.two_le
  have hwords := hg.le_counts
  have hpos : (0 : ℝ) < (g.stops.size - 1 : ℕ) := by exact_mod_cast (by omega : 0 < g.stops.size - 1)
  have hle : (i : ℝ) ≤ (g.stops.size - 1 : ℕ) := by exact_mod_cast (by omega : i ≤ g.stops.size - 1)
  refine (standsForReal_count (by omega)).div (standsForReal_count (by omega)) hpos.ne' ?_
  rw [abs_of_nonneg (by positivity)]
  exact (div_le_one_of_le₀ hle hpos.le).trans (by norm_num)

theorem standsForReal_position_first : StandsForReal (g.position 0) 0 := by
  have h := standsForReal_position hg (i := 0) (by have := hg.two_le; omega)
  simpa using h

theorem standsForReal_position_last : StandsForReal (g.position (g.stops.size - 1)) 1 := by
  have htwo := hg.two_le
  have hpos : ((g.stops.size - 1 : ℕ) : ℝ) ≠ 0 := by exact_mod_cast (by omega : g.stops.size - 1 ≠ 0)
  have h := standsForReal_position hg (i := g.stops.size - 1) (by omega)
  rwa [div_self hpos, standsForReal_one.nearest_eq] at h

/-- The first stop lies before a place inside the gradient, so the stop that is found has one before it. -/
theorem exists_firstFrom_eq (ht : StandsForReal t a) (hpos : 0 < a) :
    ∃ i, g.firstFrom t 0 (g.stops.size - 1) = i + 1 := by
  apply Nat.exists_eq_succ_of_ne_zero
  intro hzero
  have htwo := hg.two_le
  obtain ⟨-, -, hfound⟩ := firstFrom_spec g t 0 (g.stops.size - 1)
  rw [hzero] at hfound
  exact hfound (by omega) (((standsForReal_position_first hg).lt_iff ht).mpr hpos)

theorem exists_position_firstFrom (ht : StandsForReal t a) (hlt : a < 1) :
    ∃ c, StandsForReal (g.position (g.firstFrom t 0 (g.stops.size - 1))) c ∧ a ≤ c ∧ c ≤ 1 := by
  have htwo := hg.two_le
  obtain ⟨hle, -, hfound⟩ := firstFrom_spec g t 0 (g.stops.size - 1)
  rw [Nat.zero_add] at hle hfound
  rcases hle.lt_or_eq with hinside | hend
  · have hposition := standsForReal_position hg (hinside.trans (by omega))
    have hupper := not_lt.mp (mt (hposition.lt_iff ht).mpr (hfound hinside))
    refine ⟨_, hposition, hupper, ?_⟩
    rw [← standsForReal_one.nearest_eq]
    apply nearest_mono
    apply div_le_one_of_le₀
    · exact_mod_cast hle
    · positivity
  · rw [hend]
    exact ⟨1, standsForReal_position_last hg, hlt.le, le_rfl⟩

/-- A place inside the gradient lies between two neighbouring stops, a fraction of the way from one to the
other. -/
theorem exists_segment (ht : StandsForReal t a) (hpos : 0 < a) (hlt : a < 1) :
    let i := max 1 (g.firstFrom t 0 (g.stops.size - 1)) - 1
    i + 1 < g.stops.size ∧ ∃ f, StandsForReal ((t - g.position i) / (g.position (i + 1) - g.position i)) f ∧
      0 ≤ f ∧ f ≤ 1 := by
  have htwo := hg.two_le
  obtain ⟨hle, hpassed, -⟩ := firstFrom_spec g t 0 (g.stops.size - 1)
  obtain ⟨c, hbehind, hupper, hone⟩ := exists_position_firstFrom hg ht hlt
  obtain ⟨i, hi⟩ := exists_firstFrom_eq hg ht hpos
  rw [hi] at hle hpassed hbehind
  have hindex : max 1 (i + 1) - 1 = i := by omega
  rw [hi, hindex]
  have hbefore := standsForReal_position hg (i := i) (by omega)
  have hlower := (hbefore.lt_iff ht).mp (hpassed i (Nat.zero_le i) (Nat.lt_succ_self i))
  have hnonneg : 0 ≤ nearest .binary32 (i / (g.stops.size - 1 : ℕ)) := nearest_nonneg (by positivity)
  exact ⟨by omega, exists_fraction hbefore ht hbehind hlower hupper (by linarith)⟩

end Positions

section Tints

theorem near_stop (g : Gradient) (k : Channel) (hi : i < g.stops.size) :
    Near 1 (k.part (g.stop i)) (g.byteAt k i / 255) := by
  rw [stop, byteAt, Array.getElem?_eq_getElem hi, Option.map_some, Option.map_some, Option.getD_some,
    Option.getD_some, Channel.part_ofColor]
  exact near_byte _

variable (hg : g.Within k l u)
include hg

theorem Within.stop_mem (hi : i < g.stops.size) : (g.byteAt k i / 255 : ℝ) ∈ fractions l u := by
  obtain ⟨hlower, hupper⟩ := hg.stops i hi
  constructor <;> gcongr

theorem near_further {j : ℕ} (hi : i < g.stops.size) (hj : j < g.stops.size)
    (hrange : l + g.byteAt k j ≤ 2 * g.byteAt k i ∧ 2 * g.byteAt k i ≤ u + g.byteAt k j) :
    ∃ b ∈ fractions l u, Near 6 (k.part (Tint.beyond (g.stop i) (g.stop j))) b := by
  have hbytes := fractions_subset (l := l) hg.isByte
  have hlower : (l : ℝ) + g.byteAt k j ≤ 2 * g.byteAt k i := by exact_mod_cast hrange.1
  have hupper : 2 * (g.byteAt k i : ℝ) ≤ u + g.byteAt k j := by exact_mod_cast hrange.2
  refine ⟨2 * (g.byteAt k i / 255) - g.byteAt k j / 255, ?_, ?_⟩
  · constructor <;> linarith
  · rw [Channel.part_beyond]
    exact near_beyond (near_stop g k hi) (near_stop g k hj) (hbytes (hg.stop_mem hi))
      (hbytes (hg.stop_mem hj))

theorem near_before (hi : i + 1 < g.stops.size) :
    ∃ b ∈ fractions l u, Near 6 (k.part (if 0 < i then g.stop (i - 1)
      else Tint.beyond (g.stop i) (g.stop (i + 1)))) b := by
  split_ifs with hinside
  · exact ⟨_, hg.stop_mem (by omega), (near_stop g k (by omega)).mono (by decide)⟩
  · obtain rfl : i = 0 := by omega
    exact near_further hg (by omega) hi hg.first

theorem near_behind (hi : i + 1 < g.stops.size) :
    ∃ b ∈ fractions l u, Near 6 (k.part (if i + 2 < g.stops.size then g.stop (i + 2)
      else Tint.beyond (g.stop (i + 1)) (g.stop i))) b := by
  split_ifs with hinside
  · exact ⟨_, hg.stop_mem hinside, (near_stop g k hinside).mono (by decide)⟩
  · have hlast := hg.last
    have hlast' : g.stops.size - 1 = i + 1 := by omega
    have hbefore : g.stops.size - 2 = i := by omega
    rw [hlast', hbefore] at hlast
    exact near_further hg hi (by omega) hlast

/-- Between two stops a channel is off by few steps from a value in the range of the stops. -/
theorem near_between (hi : i + 1 < g.stops.size)
    (hfraction : ∃ f, StandsForReal ((t - g.position i) / (g.position (i + 1) - g.position i)) f ∧
      0 ≤ f ∧ f ≤ 1) :
    ∃ b ∈ fractions l u, Near 252 (k.part (g.between t i)) b := by
  obtain ⟨f, hf, hnonneg, hle⟩ := hfraction
  have hbytes := fractions_subset (l := l) hg.isByte
  obtain ⟨b₀, hb₀, hnear₀⟩ := near_before hg hi
  obtain ⟨b₃, hb₃, hnear₃⟩ := near_behind hg hi
  have hb₁ := hg.stop_mem (i := i) (by omega)
  have hb₂ := hg.stop_mem hi
  have hnear₁ := (near_stop g k (i := i) (by omega)).mono (n := 6) (by decide)
  have hnear₂ := (near_stop g k hi).mono (n := 6) (by decide)
  refine ⟨_, blend_mem hnonneg hle hb₀ hb₁ hb₂ hb₃, ?_⟩
  rw [between]
  simp only [Channel.part_zip]
  exact near_spline hf hnonneg hle hnear₀ hnear₁ hnear₂ hnear₃ (hbytes hb₀) (hbytes hb₁) (hbytes hb₂)
    (hbytes hb₃)

theorem near_tint (hsized : g.Sized) (ht : StandsForReal t a) :
    ∃ b ∈ fractions l u, Near 252 (k.part (g.tint t)) b := by
  have htwo := hsized.two_le
  have hends {j : ℕ} (hj : j < g.stops.size) : ∃ b ∈ fractions l u, Near 252 (k.part (g.stop j)) b :=
    ⟨_, hg.stop_mem hj, (near_stop g k hj).mono (by decide)⟩
  rw [tint, ht.isNaN_eq_false]
  by_cases hlow : t ≤ 0.0
  · rw [if_pos hlow]
    exact hends (by omega)
  · rw [if_neg hlow]
    by_cases hhigh : 1.0 ≤ t
    · rw [if_pos hhigh]
      exact hends (by omega)
    · have hpos := not_le.mp (mt (ht.le_iff standsForReal_zero).mpr hlow)
      have hlt := not_le.mp (mt (standsForReal_one.le_iff ht).mpr hhigh)
      obtain ⟨hi, hfraction⟩ := exists_segment hsized ht hpos hlt
      rw [if_neg hhigh]
      exact near_between hg hi hfraction

/-- No channel of a gradient's colours leaves the range of its stops. -/
theorem color_mem (hsized : g.Sized) (ht : StandsForReal t a) :
    l ≤ (k.byte (g.color t)).toNat ∧ (k.byte (g.color t)).toNat ≤ u := by
  obtain ⟨b, hb, hnear⟩ := near_tint hg hsized ht
  rw [color, Channel.byte_toColor]
  exact channelByte_mem hnear (by decide) hb hg.isByte

end Tints

end Landscape.Gradient
