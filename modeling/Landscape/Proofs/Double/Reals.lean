import Landscape.Proofs.Double.Results

namespace Landscape.Double
open Float.Model Float.Model.UnpackedFloat

variable {x y : Float} {a b c : ℝ} {s : Sign}

theorem standsForReal_of_parts {m : ℕ} {e : ℤ} {hm : 0 < m} (h : parts x = .finite s m e hm) :
    StandsForReal x (factor s * (m * 2 ^ e)) :=
  ⟨by rw [h]; rfl, (canonical_parts x).1, by rw [h]; rfl⟩

theorem standsForReal_zero : StandsForReal 0.0 0 := by
  have hparts : parts 0.0 = .zero .positive := rfl
  rw [StandsForReal, hparts]
  exact standsFor_zero _ _

theorem standsForReal_one : StandsForReal 1.0 1 := by
  have hparts : parts 1.0 = .finite .positive (2 ^ 52) (-52) (by decide) := rfl
  have h := standsForReal_of_parts hparts
  norm_num at h
  exact h

theorem standsForReal_four : StandsForReal 4.0 4 := by
  have hparts : parts 4.0 = .finite .positive (2 ^ 52) (-50) (by decide) := rfl
  have h := standsForReal_of_parts hparts
  norm_num at h
  exact h

theorem StandsForReal.le_iff (hx : StandsForReal x a) (hy : StandsForReal y b) :
    x ≤ y ↔ a ≤ b := by
  rw [Double.le_iff, hx.value_eq, hy.value_eq, EReal.coe_le_coe_iff]
  simp [hx.isNumber, hy.isNumber]

theorem StandsForReal.lt_iff (hx : StandsForReal x a) (hy : StandsForReal y b) :
    x < y ↔ a < b := by
  rw [Double.lt_iff, hx.value_eq, hy.value_eq, EReal.coe_lt_coe_iff]
  simp [hx.isNumber, hy.isNumber]

theorem StandsForReal.beq_iff (hy : StandsForReal y b) : (x == y) = true ↔ StandsForReal x b := by
  rw [Double.beq_iff, hy.value_eq]
  constructor
  · rintro ⟨hx, -, hvalue⟩
    exact standsForReal_of_value hx hvalue
  · intro hx
    exact ⟨hx.isNumber, hy.isNumber, hx.value_eq⟩

theorem StandsForReal.unique (h : StandsForReal x a) (h' : StandsForReal x b) : a = b :=
  EReal.coe_eq_coe_iff.mp (h.value_eq.symm.trans h'.value_eq)

theorem nonneg_of_rounded {r : ℝ} (h : (r : EReal) = rounded a) (ha : 0 ≤ a) : 0 ≤ r := by
  rw [← EReal.coe_nonneg, h]
  exact rounded_nonneg (EReal.coe_nonneg.mpr ha)

theorem nonpos_of_rounded {r : ℝ} (h : (r : EReal) = rounded a) (ha : a ≤ 0) : r ≤ 0 := by
  have hneg : ((-r : ℝ) : EReal) = rounded (-a : ℝ) := by
    rw [EReal.coe_neg, EReal.coe_neg, rounded_neg, h]
  exact neg_nonneg.mp (nonneg_of_rounded hneg (neg_nonneg.mpr ha))

theorem isNumber_add_of_real (hx : StandsForReal x a) (hy : IsNumber y) : IsNumber (x + y) := by
  rw [isNumber_add_iff, hx.value_eq]
  exact ⟨hx.isNumber, hy, adds_comm.mp (adds_coe a _)⟩

theorem isRounded_sub_real {b : ℝ} (hx : IsNumber x) (hy : StandsForReal y b) :
    IsRounded (x - y) (value x - b) := by
  have hadds : Adds (value x) (-value y) := by
    rw [hy.value_eq, ← EReal.coe_neg]
    exact adds_coe _ _
  rw [← hy.value_eq]
  exact isRounded_sub hx hy.isNumber hadds

theorem parts_real_add_infinity (hx : StandsForReal x a) (hy : parts y = .infinity s) :
    parts (x + y) = .infinity s := by
  rw [float_add_comm, parts_add_infinity hy hx]

theorem standsForReal_ofCount {n : ℕ} (hn : n ≤ UInt64.size) :
    StandsForReal (ofCount n) (nearest .binary64 n) := by
  obtain ⟨hnumber, hvalue⟩ := isRounded_ofCount n
  have hsize : nearest .binary64 (2 ^ (64 : ℤ)) = 2 ^ (64 : ℤ) := by
    simpa using nearest_of_abs_lt (F := .binary64) (n := 1) (e := 64) (by decide) (by decide)
  have hle : nearest .binary64 n ≤ 2 ^ (64 : ℤ) := by
    rw [← hsize]
    apply nearest_mono
    exact_mod_cast hn
  apply standsForReal_of_value hnumber
  rw [hvalue, rounded_coe, limit_of_abs_lt]
  rw [abs_of_nonneg (nearest_nonneg (Nat.cast_nonneg n))]
  exact lt_of_le_of_lt hle (zpow_lt_zpow_right₀ (by norm_num) (by norm_num))

theorem one_le_nearest {x : ℝ} (h : 1 ≤ x) : 1 ≤ nearest .binary64 x := by
  have hone : nearest .binary64 1 = 1 := by
    simpa using nearest_of_abs_lt (F := .binary64) (n := 1) (e := 0) (by decide) (by decide)
  rw [← hone]
  exact nearest_mono _ h

theorem rounded_value (x : Float) : rounded (value x) = value x := by
  by_cases hx : IsNumber x
  · cases hx.kind with
    | infinity s h => rw [value_of_infinity h, rounded_endOf]
    | real a h =>
      have hlimit := (value_of_stored (stored_parts x).symm h).2
      rw [h.value_eq] at hlimit ⊢
      rw [rounded_coe, StandsFor.nearest_eq h, ← hlimit]
  · rw [value_of_notANumber (not_not.mp hx), rounded_zero]

theorem StandsForReal.rounded_eq (h : StandsForReal x a) : rounded a = a := by
  rw [← h.value_eq, rounded_value]

theorem StandsForReal.rounded_abs (h : StandsForReal x a) : rounded (|a| : ℝ) = (|a| : ℝ) := by
  rcases abs_choice a with habs | habs
  · rw [habs, h.rounded_eq]
  · rw [habs, EReal.coe_neg, rounded_neg, h.rounded_eq]

theorem IsRounded.nearest_eq (h : IsRounded x a) (hx : StandsForReal x c) :
    nearest .binary64 a = c := by
  have hvalue := h.value_eq
  rw [hx.value_eq, rounded_coe] at hvalue
  exact eq_of_limit_eq hvalue.symm

theorem IsRounded.standsForReal (h : IsRounded x a) (hc : rounded a = c) : StandsForReal x c :=
  standsForReal_of_value h.isNumber (h.value_eq.trans hc)

theorem isRounded_mul_reals (hx : StandsForReal x a) (hy : StandsForReal y b) :
    IsRounded (x * y) (a * b : ℝ) := by
  have h := isRounded_mul hx.isNumber hy.isNumber
  rw [hx.value_eq, hy.value_eq, ← EReal.coe_mul] at h
  exact h (multiplies_coe a b)

theorem isRounded_add_reals (hx : StandsForReal x a) (hy : StandsForReal y b) :
    IsRounded (x + y) (a + b : ℝ) := by
  have h := isRounded_add hx.isNumber hy.isNumber
  rw [hx.value_eq, hy.value_eq, ← EReal.coe_add] at h
  exact h (adds_coe b a)

theorem isRounded_sub_reals (hx : StandsForReal x a) (hy : StandsForReal y b) :
    IsRounded (x - y) (a - b : ℝ) := by
  have h := isRounded_sub_real hx.isNumber hy
  rwa [hx.value_eq, ← EReal.coe_sub] at h

/-- A number below a real one and above another is real. -/
theorem standsForReal_of_between {l u : ℝ} (hx : IsNumber x) (hlower : (l : EReal) ≤ value x)
    (hupper : value x ≤ u) : ∃ a, StandsForReal x a := by
  cases hx.kind with
  | real a h => exact ⟨a, h⟩
  | infinity s h =>
    rw [value_of_infinity h] at hlower hupper
    cases s
    · exact absurd hlower (EReal.bot_lt_coe l).not_ge
    · exact absurd hupper (EReal.coe_lt_top u).not_ge

theorem add_le_add_of_reals {x' y' : Float} {b' : ℝ} (hx : x ≤ x') (hy : StandsForReal y b)
    (hy' : StandsForReal y' b') (hle : y ≤ y') : x + y ≤ x' + y' := by
  obtain ⟨hnumber, hnumber', hvalue⟩ := le_iff.mp hx
  have hsum := isRounded_add hnumber hy.isNumber (hy.value_eq ▸ adds_coe b _)
  have hsum' := isRounded_add hnumber' hy'.isNumber (hy'.value_eq ▸ adds_coe b' _)
  refine le_iff.mpr ⟨hsum.isNumber, hsum'.isNumber, ?_⟩
  rw [hsum.value_eq, hsum'.value_eq]
  exact rounded_mono (add_le_add hvalue (le_iff.mp hle).2.2)

theorem sub_le_sub_of_real {x' : Float} (hx : x ≤ x') (hy : StandsForReal y b) : x - y ≤ x' - y := by
  obtain ⟨hnumber, hnumber', hvalue⟩ := le_iff.mp hx
  have hdifference := isRounded_sub_real hnumber hy
  have hdifference' := isRounded_sub_real hnumber' hy
  refine le_iff.mpr ⟨hdifference.isNumber, hdifference'.isNumber, ?_⟩
  rw [hdifference.value_eq, hdifference'.value_eq]
  exact rounded_mono (EReal.sub_le_sub hvalue le_rfl)

/-- Multiplying by a number that is not negative keeps the order of products that are numbers. -/
theorem mul_le_mul_of_nonneg {x' : Float} (hx : x ≤ x') (hy : 0.0 ≤ y) (hproduct : IsNumber (x * y))
    (hproduct' : IsNumber (x' * y)) : x * y ≤ x' * y := by
  obtain ⟨hnumber, hnumber', hvalue⟩ := le_iff.mp hx
  obtain ⟨-, hy, hnonneg⟩ := le_iff.mp hy
  rw [standsForReal_zero.value_eq, EReal.coe_zero] at hnonneg
  have hrounded := isRounded_mul hnumber hy (multiplies_of_isNumber_mul hproduct hnumber hy)
  have hrounded' := isRounded_mul hnumber' hy (multiplies_of_isNumber_mul hproduct' hnumber' hy)
  refine le_iff.mpr ⟨hproduct, hproduct', ?_⟩
  rw [hrounded.value_eq, hrounded'.value_eq]
  exact rounded_mono (mul_le_mul_of_nonneg_right hvalue hnonneg)

/-- Dividing by a positive real number keeps the order. -/
theorem div_le_div_of_real {x' : Float} (hx : x ≤ x') (hy : StandsForReal y b) (hb : 0 < b) :
    x / y ≤ x' / y := by
  obtain ⟨hnumber, hnumber', hvalue⟩ := le_iff.mp hx
  have hquotient := isRounded_div hnumber hy hb.ne'
  have hquotient' := isRounded_div hnumber' hy hb.ne'
  refine le_iff.mpr ⟨hquotient.isNumber, hquotient'.isNumber, ?_⟩
  rw [hquotient.value_eq, hquotient'.value_eq]
  exact rounded_mono (EReal.div_le_div_right_of_nonneg (EReal.coe_nonneg.mpr hb.le) hvalue)

theorem coe_ne_endOf (a : ℝ) (s : Sign) : (a : EReal) ≠ endOf s := by
  cases s
  · exact EReal.coe_ne_bot a
  · exact EReal.coe_ne_top a

theorem endOf_add {s : Sign} {b : EReal} (h : Adds (endOf s) b) : endOf s + b = endOf s := by
  cases s
  · exact EReal.bot_add b
  · exact EReal.top_add_of_ne_bot fun hb => h.1 ⟨rfl, hb⟩

theorem standsForReal_of_add {c : ℝ} (h : StandsForReal (x + y) c) :
    ∃ a b, StandsForReal x a ∧ StandsForReal y b := by
  obtain ⟨hx, hy, hadds⟩ := isNumber_add_iff.mp h.isNumber
  have hvalue := (isRounded_add hx hy hadds).value_eq
  rw [h.value_eq] at hvalue
  cases hx.kind with
  | infinity s hx' =>
    rw [value_of_infinity hx'] at hadds hvalue
    rw [endOf_add hadds, rounded_endOf] at hvalue
    exact absurd hvalue (coe_ne_endOf c s)
  | real a hx' =>
    cases hy.kind with
    | infinity t hy' =>
      rw [value_of_infinity hy', add_comm] at hvalue
      rw [value_of_infinity hy', adds_comm] at hadds
      rw [endOf_add hadds, rounded_endOf] at hvalue
      exact absurd hvalue (coe_ne_endOf c t)
    | real b hy' => exact ⟨a, b, hx', hy'⟩

theorem neg_neg_eq (u : UnpackedFloat) : u.neg.neg = u := by
  rcases u with s | _ | s | ⟨s, m, e, hm⟩
  · cases s <;> rfl
  · rfl
  · cases s <;> rfl
  · cases s <;> rfl

theorem standsForReal_of_sub {c : ℝ} (h : StandsForReal (x - y) c) :
    ∃ a b, StandsForReal x a ∧ StandsForReal y b := by
  rw [float_sub_eq_add_neg] at h
  obtain ⟨a, b, hx, hy⟩ := standsForReal_of_add h
  refine ⟨a, -b, hx, ?_⟩
  have hneg := hy.neg
  rwa [StandsForReal, parts_neg_eq, parts_neg_eq, neg_neg_eq] at hneg

/-- A sum is zero only if it is exactly so. -/
theorem eq_neg_of_add_eq_zero (hx : StandsForReal x a) (hy : StandsForReal y b)
    (h : StandsForReal (x + y) 0) : b = -a := by
  have hnearest := (isRounded_add_reals hx hy).nearest_eq h
  rcases lt_trichotomy b (-a) with hlt | heq | hgt
  · have hpos := nearest_sub_pos hy hx.neg hlt
    rw [show -a - b = -(a + b) by ring, nearest_neg, hnearest] at hpos
    exact absurd hpos (by simp)
  · exact heq
  · have hpos := nearest_sub_pos hx.neg hy hgt
    rw [show b - -a = a + b by ring, hnearest] at hpos
    exact absurd hpos (lt_irrefl 0)

/-- A result is real if its size is bounded by that of a real number. -/
theorem IsRounded.standsForReal_of_abs_le {b : ℝ} (h : IsRounded x c) (hy : StandsForReal y b)
    (hle : |c| ≤ |b|) : StandsForReal x (nearest .binary64 c) := by
  have hkeep := hy.rounded_abs
  obtain ⟨hlower, hupper⟩ := abs_le.mp hle
  obtain ⟨r, hr⟩ : ∃ r, StandsForReal x r := by
    apply standsForReal_of_between h.isNumber (l := -|b|) (u := |b|)
    · rw [h.value_eq, EReal.coe_neg, ← hkeep, ← rounded_neg, ← EReal.coe_neg]
      exact rounded_mono (EReal.coe_le_coe_iff.mpr hlower)
    · rw [h.value_eq, ← hkeep]
      exact rounded_mono (EReal.coe_le_coe_iff.mpr hupper)
  rwa [h.nearest_eq hr]

theorem standsForReal_div {b : ℝ} (hx : StandsForReal x a) (hy : StandsForReal y b) (hb : 1 ≤ b) :
    ∃ c, StandsForReal (x / y) c := by
  have hpos : 0 < b := by linarith
  have hquotient := isRounded_div hx.isNumber hy hpos.ne'
  rw [hx.value_eq, ← EReal.coe_div] at hquotient
  -- The quotient is no larger than the dividend.
  have hbound : |a / b| ≤ |a| := by
    rw [abs_div, abs_of_pos hpos]
    exact div_le_self (abs_nonneg a) hb
  exact ⟨_, hquotient.standsForReal_of_abs_le hx hbound⟩

theorem standsForReal_of_div {b c : ℝ} (h : StandsForReal (x / y) c) (hy : StandsForReal y b)
    (hb : b ≠ 0) : ∃ a, StandsForReal x a := by
  have hx := isNumber_of_div h.isNumber
  cases hx.kind with
  | real a hx' => exact ⟨a, hx'⟩
  | infinity s hx' =>
    obtain ⟨t, ht⟩ := endOf_div s hb
    have hvalue := (isRounded_div hx hy hb).value_eq
    rw [h.value_eq, value_of_infinity hx', ht, rounded_endOf] at hvalue
    exact absurd hvalue (coe_ne_endOf c t)

theorem parts_of_value_eq_endOf (h : value x = endOf s) : parts x = .infinity s := by
  have hx : IsNumber x := by
    intro hx
    rw [value_of_notANumber hx] at h
    exact endOf_ne_zero s h.symm
  cases hx.kind with
  | real a h' =>
    rw [h'.value_eq] at h
    exact absurd h (coe_ne_endOf a s)
  | infinity t h' =>
    rw [value_of_infinity h'] at h
    cases s <;> cases t
    · exact h'
    · exact absurd h (by simp [endOf])
    · exact absurd h (by simp [endOf])
    · exact h'

/-- Doubles that stand for the same number are the same, unless they are zeros. -/
theorem eq_of_value_eq (hx : IsNumber x) (hy : IsNumber y) (h : value x = value y)
    (hne : value x ≠ 0) : x = y := by
  apply parts_inj.mp
  cases hx.kind with
  | infinity s hx' =>
    rw [value_of_infinity hx'] at h
    rw [hx', parts_of_value_eq_endOf h.symm]
  | real a hx' =>
    rw [hx'.value_eq] at h hne
    exact StandsFor.eq_of_ne_zero hx' (standsForReal_of_value hy h.symm) (EReal.coe_ne_zero.mp hne)

end Landscape.Double
