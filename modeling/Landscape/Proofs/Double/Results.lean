import Landscape.Double.Basic
import Landscape.Proofs.Double.Arithmetic
import Landscape.Proofs.Double.Values

namespace Landscape.Double
open Float.Model Float.Model.UnpackedFloat

variable {x y : Float} {a b : ℝ}

theorem abs_factor_mul (s : Sign) {r : ℝ} (h : 0 ≤ r) : |factor s * r| = r := by
  cases s <;> simp [abs_of_nonneg h]

section Finite

variable {m : ℕ} {e : ℤ}

/-- All digits at an exponent past the largest make an infinity. -/
theorem limit_of_maxExponent_lt (s : Sign) (hdigits : 2 ^ 52 ≤ m) (he : maxExponent < e) :
    limit (factor s * (m * 2 ^ e)) = endOf s := by
  have hdigits' : (2 : ℝ) ^ (52 : ℤ) ≤ m := by exact_mod_cast hdigits
  have hbound : (2 : ℝ) ^ (1024 : ℤ) ≤ m * 2 ^ e := by
    calc
      (2 : ℝ) ^ (1024 : ℤ) = 2 ^ (52 : ℤ) * 2 ^ (972 : ℤ) := by
        rw [← zpow_add₀ (by norm_num)]
        norm_num
      _ ≤ m * 2 ^ e := by
        gcongr
        · norm_num
        · exact he
  have htop : limit (m * 2 ^ e) = ⊤ := if_pos hbound
  cases s
  · rw [factor_negative, neg_one_mul, limit_neg, htop]
    rfl
  · rw [factor_positive, one_mul, htop]
    rfl

theorem limit_of_le_maxExponent (s : Sign) (hm : m < 2 ^ 53) (he : e ≤ maxExponent) :
    limit (factor s * (m * 2 ^ e)) = (factor s * (m * 2 ^ e) : ℝ) := by
  have hm' : (m : ℝ) < 2 ^ (53 : ℤ) := by exact_mod_cast hm
  apply limit_of_abs_lt
  rw [abs_factor_mul s (by positivity)]
  calc
    (m : ℝ) * 2 ^ e < 2 ^ (53 : ℤ) * 2 ^ e := by gcongr
    _ ≤ 2 ^ (53 : ℤ) * 2 ^ (971 : ℤ) := by
      gcongr
      · norm_num
      · exact he
    _ = 2 ^ (1024 : ℤ) := by
      rw [← zpow_add₀ (by norm_num)]
      norm_num

end Finite

theorem value_of_stored {u : UnpackedFloat} (hx : parts x = stored u)
    (hu : StandsFor .binary64 u a) : IsNumber x ∧ value x = limit a := by
  rw [stored_eq_settle hu.canonical] at hx
  obtain ⟨hfinite, hcanonical, rfl⟩ := hu
  rcases u with s | _ | s | ⟨s, m, e, hm⟩
  · cases hfinite
  · cases hfinite
  · change parts x = .zero s at hx
    refine ⟨by simp [IsNumber, hx], ?_⟩
    rw [value, hx, real_zero, limit_of_abs_lt (by simp)]
    rfl
  · obtain ⟨hlt, -, hdigits⟩ := hcanonical
    have hmin : Format.binary64.minExponent = -1074 := rfl
    rw [settle] at hx
    rw [real_finite]
    by_cases hlarge : maxExponent < e
    · rw [if_pos hlarge] at hx
      refine ⟨isNumber_of_infinity hx, ?_⟩
      have hne : e ≠ Format.binary64.minExponent := by
        unfold maxExponent at hlarge
        omega
      rw [value_of_infinity hx, limit_of_maxExponent_lt s (hdigits.resolve_right hne) hlarge]
    · rw [if_neg hlarge] at hx
      refine ⟨by simp [IsNumber, hx], ?_⟩
      rw [limit_of_le_maxExponent s hlt (not_lt.mp hlarge), value, hx]
      rfl

theorem standsForReal_of_value (hx : IsNumber x) (h : value x = a) : StandsForReal x a := by
  cases hx.kind with
  | infinity s h' =>
    rw [value_of_infinity h'] at h
    cases s
    · exact absurd h (EReal.coe_ne_bot a).symm
    · exact absurd h (EReal.coe_ne_top a).symm
  | real r h' =>
    rw [h'.value_eq, EReal.coe_eq_coe_iff] at h
    exact h ▸ h'

theorem parts_mul (x y : Float) : parts (x * y) =
    stored (UnpackedFloat.mul .binary64 (parts x) (parts y)) := by
  rw [parts_eq_unpack x, parts_eq_unpack y]
  exact parts_ofModel _

theorem parts_add (x y : Float) : parts (x + y) =
    stored (UnpackedFloat.add .binary64 (parts x) (parts y)) := by
  rw [parts_eq_unpack x, parts_eq_unpack y]
  exact parts_ofModel _

theorem parts_div (x y : Float) : parts (x / y) =
    stored (UnpackedFloat.div .binary64 (parts x) (parts y)) := by
  rw [parts_eq_unpack x, parts_eq_unpack y]
  exact parts_ofModel _

theorem parts_sub (x y : Float) : parts (x - y) =
    stored (UnpackedFloat.sub .binary64 (parts x) (parts y)) := by
  rw [parts_eq_unpack x, parts_eq_unpack y]
  exact parts_ofModel _

theorem parts_neg (x : Float) : parts (-x) = stored (parts x).neg := by
  rw [parts_eq_unpack x]
  exact parts_ofModel _

theorem parts_ofCount (n : ℕ) : parts (ofCount n) =
    stored (UnpackedFloat.normalize .binary64 n 0 .positive) :=
  parts_ofModel _

theorem endOf_mul_endOf (s t : Sign) : endOf s * endOf t = endOf (s * t) := by
  cases s <;> cases t <;> rfl

theorem endOf_mul_coe (s t : Sign) {r : ℝ} (hr : 0 < r) :
    endOf s * ((factor t * r : ℝ) : EReal) = endOf (s * t) := by
  have hneg : factor .negative * r < 0 := by simpa [factor] using hr
  have hpos : 0 < factor .positive * r := by simpa [factor] using hr
  cases s <;> cases t
  · exact EReal.bot_mul_coe_of_neg hneg
  · exact EReal.bot_mul_coe_of_pos hpos
  · exact EReal.top_mul_coe_of_neg hneg
  · exact EReal.top_mul_coe_of_pos hpos

theorem coe_mul_endOf (s t : Sign) {r : ℝ} (hr : 0 < r) :
    ((factor s * r : ℝ) : EReal) * endOf t = endOf (s * t) := by
  rw [mul_comm, endOf_mul_coe t s hr]
  cases s <;> cases t <;> rfl

theorem rounded_endOf (s : Sign) : rounded (endOf s) = endOf s := by
  cases s
  · exact rounded_bot
  · exact rounded_top

theorem endOf_ne_zero (s : Sign) : endOf s ≠ 0 := by
  cases s
  · exact EReal.bot_ne_zero
  · exact EReal.top_ne_zero

theorem endOf_infinite (s : Sign) : endOf s = ⊤ ∨ endOf s = ⊥ := by
  cases s
  · exact .inr rfl
  · exact .inl rfl

theorem value_of_notANumber (h : parts x = .notANumber) : value x = 0 := by
  rw [value, h]
  rfl

theorem StandsForReal.cases (h : StandsForReal x a) :
    (a = 0 ∧ ∃ s, parts x = .zero s) ∨
      ∃ s m e hm, parts x = .finite s m e hm ∧ a = factor s * (m * 2 ^ e) := by
  obtain ⟨hfinite, -, rfl⟩ := h
  rcases hparts : parts x with s | _ | s | ⟨s, m, e, hm⟩
  · rw [hparts] at hfinite
    cases hfinite
  · rw [hparts] at hfinite
    cases hfinite
  · exact .inl ⟨rfl, s, rfl⟩
  · exact .inr ⟨s, m, e, hm, rfl, rfl⟩

theorem StandsForReal.exists_zero (h : StandsForReal x 0) : ∃ s, parts x = .zero s := by
  rcases h.cases with ⟨-, hzero⟩ | ⟨s, m, e, hm, -, heq⟩
  · exact hzero
  · have hpos : (0 : ℝ) < m * 2 ^ e := by positivity
    have hfactor : factor s ≠ 0 := by cases s <;> simp
    exact absurd heq.symm (mul_ne_zero hfactor hpos.ne')

structure IsRounded (x : Float) (a : EReal) : Prop where
  isNumber : IsNumber x
  value_eq : value x = rounded a

theorem isRounded_of_stored {u : UnpackedFloat} (hx : parts x = stored u)
    (hu : StandsFor .binary64 u (nearest .binary64 a)) : IsRounded x a := by
  obtain ⟨hnumber, hvalue⟩ := value_of_stored hx hu
  exact ⟨hnumber, by rw [hvalue, rounded_coe]⟩

theorem isRounded_of_infinity {s : Sign} (h : parts x = .infinity s) : IsRounded x (endOf s) :=
  ⟨isNumber_of_infinity h, by rw [value_of_infinity h, rounded_endOf]⟩

/-- Two numbers have a product unless one is zero and the other infinite. -/
def Multiplies (a b : EReal) : Prop :=
  ¬ (a = 0 ∧ (b = ⊤ ∨ b = ⊥)) ∧ ¬ ((a = ⊤ ∨ a = ⊥) ∧ b = 0)

def Adds (a b : EReal) : Prop :=
  ¬ (a = ⊤ ∧ b = ⊥) ∧ ¬ (a = ⊥ ∧ b = ⊤)

theorem parts_mul_infinity {t : Sign} (hx : StandsForReal x a) (hy : parts y = .infinity t) :
    (a = 0 ∧ parts (x * y) = .notANumber) ∨
      (a ≠ 0 ∧ ∃ s, parts (x * y) = .infinity s ∧ (a : EReal) * endOf t = endOf s) := by
  rw [parts_mul, hy]
  rcases hx.cases with ⟨rfl, s, h⟩ | ⟨s, m, e, hm, h, rfl⟩
  · rw [h]
    exact .inl ⟨rfl, stored_notANumber⟩
  · rw [h]
    have hpos : (0 : ℝ) < m * 2 ^ e := by positivity
    have hfactor : factor s ≠ 0 := by cases s <;> simp
    exact .inr ⟨mul_ne_zero hfactor hpos.ne', s * t, stored_infinity _, coe_mul_endOf s t hpos⟩

theorem Sign.mul_comm (s t : Sign) : s * t = t * s := by
  cases s <;> cases t <;> rfl

theorem float_mul_comm (x y : Float) : x * y = y * x := by
  apply parts_inj.mp
  rw [parts_mul, parts_mul]
  congr 1
  cases parts x <;> cases parts y <;> try rfl
  all_goals simp only [UnpackedFloat.mul, Sign.mul_comm, Nat.mul_comm, Int.add_comm]

theorem multiplies_coe (a b : ℝ) : Multiplies a b := by
  simp [Multiplies]

theorem multiplies_endOf (s t : Sign) : Multiplies (endOf s) (endOf t) := by
  simp [Multiplies, endOf_ne_zero]

theorem multiplies_coe_endOf {t : Sign} : Multiplies a (endOf t) ↔ a ≠ 0 := by
  simp [Multiplies, endOf_ne_zero, endOf_infinite]

theorem multiplies_self (a : EReal) : Multiplies a a := by
  constructor
  · rintro ⟨rfl, h | h⟩
    · exact EReal.zero_ne_top h
    · exact EReal.zero_ne_bot h
  · rintro ⟨h | h, rfl⟩
    · exact EReal.zero_ne_top h
    · exact EReal.zero_ne_bot h

theorem multiplies_comm {a b : EReal} : Multiplies a b ↔ Multiplies b a := by
  unfold Multiplies
  tauto

/-- A product of numbers is the rounded exact one, where there is one. -/
theorem isRounded_mul (hx : IsNumber x) (hy : IsNumber y) (h : Multiplies (value x) (value y)) :
    IsRounded (x * y) (value x * value y) := by
  cases hx.kind with
  | infinity s hx' =>
    rw [value_of_infinity hx'] at h ⊢
    cases hy.kind with
    | infinity t hy' =>
      rw [value_of_infinity hy', endOf_mul_endOf]
      apply isRounded_of_infinity
      rw [parts_mul, hx', hy']
      exact stored_infinity _
    | real b hy' =>
      rw [hy'.value_eq, multiplies_comm, multiplies_coe_endOf] at h
      rcases parts_mul_infinity hy' hx' with ⟨rfl, -⟩ | ⟨-, t, hparts, heq⟩
      · exact absurd rfl h
      · rw [hy'.value_eq, mul_comm, heq]
        exact isRounded_of_infinity (by rw [float_mul_comm, hparts])
  | real a hx' =>
    rw [hx'.value_eq] at h ⊢
    cases hy.kind with
    | infinity t hy' =>
      rw [value_of_infinity hy', multiplies_coe_endOf] at h
      rcases parts_mul_infinity hx' hy' with ⟨rfl, -⟩ | ⟨-, s, hparts, heq⟩
      · exact absurd rfl h
      · rw [value_of_infinity hy', heq]
        exact isRounded_of_infinity hparts
    | real b hy' =>
      rw [hy'.value_eq]
      exact isRounded_of_stored (parts_mul x y) (StandsFor.mul hx' hy')

theorem parts_mul_of_notANumber (hx : ¬ IsNumber x) : parts (x * y) = .notANumber := by
  rw [parts_mul, not_not.mp hx]
  exact stored_notANumber

theorem multiplies_of_isNumber_mul (h : IsNumber (x * y)) (hx : IsNumber x) (hy : IsNumber y) :
    Multiplies (value x) (value y) := by
  have hinfinity {x y : Float} {a : ℝ} {t : Sign} (h : IsNumber (x * y)) (hx : StandsForReal x a)
      (hy : parts y = .infinity t) : Multiplies a (endOf t) := by
    rcases parts_mul_infinity hx hy with ⟨-, hparts⟩ | ⟨hne, -⟩
    · exact absurd hparts h
    · exact multiplies_coe_endOf.mpr hne
  cases hx.kind with
  | infinity s hx' =>
    rw [value_of_infinity hx']
    cases hy.kind with
    | infinity t hy' =>
      rw [value_of_infinity hy']
      exact multiplies_endOf s t
    | real b hy' =>
      rw [hy'.value_eq, multiplies_comm]
      rw [float_mul_comm] at h
      exact hinfinity h hy' hx'
  | real a hx' =>
    rw [hx'.value_eq]
    cases hy.kind with
    | infinity t hy' =>
      rw [value_of_infinity hy']
      exact hinfinity h hx' hy'
    | real b hy' =>
      rw [hy'.value_eq]
      exact multiplies_coe a b

theorem isNumber_mul_iff :
    IsNumber (x * y) ↔ IsNumber x ∧ IsNumber y ∧ Multiplies (value x) (value y) := by
  constructor
  · intro h
    have hx : IsNumber x := fun hx => h (parts_mul_of_notANumber (not_not.mpr hx))
    have hy : IsNumber y := by
      rw [float_mul_comm] at h
      exact fun hy => h (parts_mul_of_notANumber (not_not.mpr hy))
    exact ⟨hx, hy, multiplies_of_isNumber_mul h hx hy⟩
  · rintro ⟨hx, hy, h⟩
    exact (isRounded_mul hx hy h).isNumber

theorem adds_comm {a b : EReal} : Adds a b ↔ Adds b a := by
  unfold Adds
  tauto

theorem float_add_comm (x y : Float) : x + y = y + x := by
  apply parts_inj.mp
  rw [parts_add, parts_add]
  congr 1
  rcases parts x with s | _ | s | ⟨s, m, e, hm⟩ <;> rcases parts y with t | _ | t | ⟨t, n, f, hn⟩
  case finite.finite => simp only [UnpackedFloat.add, min_comm, Int.add_comm]
  all_goals first | rfl | (cases s <;> cases t <;> rfl)

theorem endOf_add_coe (s : Sign) (a : ℝ) : endOf s + a = endOf s := by
  cases s
  · exact EReal.bot_add _
  · exact EReal.top_add_coe a

theorem adds_endOf {s t : Sign} : Adds (endOf s) (endOf t) ↔ s = t := by
  cases s <;> cases t <;> simp [Adds, endOf]

theorem adds_coe (b : ℝ) (a : EReal) : Adds a b := by
  simp [Adds]

theorem parts_add_infinity {s : Sign} (hx : parts x = .infinity s) (hy : StandsForReal y a) :
    parts (x + y) = .infinity s := by
  rw [parts_add, hx]
  rcases hy.cases with ⟨-, t, h⟩ | ⟨t, n, f, hn, h, -⟩
  · rw [h]
    exact stored_infinity s
  · rw [h]
    exact stored_infinity s

theorem isRounded_add (hx : IsNumber x) (hy : IsNumber y) (h : Adds (value x) (value y)) :
    IsRounded (x + y) (value x + value y) := by
  cases hx.kind with
  | infinity s hx' =>
    rw [value_of_infinity hx'] at h ⊢
    cases hy.kind with
    | infinity t hy' =>
      rw [value_of_infinity hy', adds_endOf] at h
      subst h
      have hsum : endOf s + endOf s = endOf s := by cases s <;> rfl
      rw [value_of_infinity hy', hsum]
      apply isRounded_of_infinity
      rw [parts_add, hx', hy']
      cases s <;> rfl
    | real b hy' =>
      rw [hy'.value_eq, endOf_add_coe]
      exact isRounded_of_infinity (parts_add_infinity hx' hy')
  | real a hx' =>
    rw [hx'.value_eq] at h ⊢
    cases hy.kind with
    | infinity t hy' =>
      rw [value_of_infinity hy', add_comm, endOf_add_coe]
      exact isRounded_of_infinity (by rw [float_add_comm, parts_add_infinity hy' hx'])
    | real b hy' =>
      rw [hy'.value_eq]
      exact isRounded_of_stored (parts_add x y) (StandsFor.add hx' hy')

theorem parts_add_of_notANumber (hx : ¬ IsNumber x) : parts (x + y) = .notANumber := by
  rw [parts_add, not_not.mp hx]
  exact stored_notANumber

theorem isNumber_add_iff :
    IsNumber (x + y) ↔ IsNumber x ∧ IsNumber y ∧ Adds (value x) (value y) := by
  constructor
  · intro h
    have hx : IsNumber x := fun hx => h (parts_add_of_notANumber (not_not.mpr hx))
    have hy : IsNumber y := by
      rw [float_add_comm] at h
      exact fun hy => h (parts_add_of_notANumber (not_not.mpr hy))
    refine ⟨hx, hy, ?_⟩
    cases hx.kind with
    | real a hx' =>
      rw [hx'.value_eq, adds_comm]
      exact adds_coe a _
    | infinity s hx' =>
      cases hy.kind with
      | real b hy' =>
        rw [hy'.value_eq]
        exact adds_coe b _
      | infinity t hy' =>
        rw [value_of_infinity hx', value_of_infinity hy', adds_endOf]
        rw [IsNumber, parts_add, hx', hy'] at h
        cases s <;> cases t
        · rfl
        · exact absurd rfl h
        · exact absurd rfl h
        · rfl
  · rintro ⟨hx, hy, h⟩
    exact (isRounded_add hx hy h).isNumber

theorem sub_eq_add_neg (F : Format) (u v : UnpackedFloat) :
    UnpackedFloat.sub F u v = UnpackedFloat.add F u v.neg := by
  rcases u with s | _ | s | ⟨s, m, e, hm⟩ <;> rcases v with t | _ | t | ⟨t, n, f, hn⟩
  case finite.finite =>
    have happly (k : ℤ) : (-t).apply k = -t.apply k := by
      cases t
      · exact (neg_neg k).symm
      · rfl
    simp only [UnpackedFloat.sub, UnpackedFloat.add, UnpackedFloat.neg, happly, Int.sub_eq_add_neg]
  all_goals rfl

theorem parts_neg_eq (x : Float) : parts (-x) = (parts x).neg := by
  obtain ⟨hcanonical, hexponent⟩ := canonical_parts x
  rw [parts_neg]
  rcases hparts : parts x with s | _ | s | ⟨s, m, e, hm⟩
  · exact stored_infinity _
  · exact stored_notANumber
  · exact stored_zero _
  · rw [hparts] at hcanonical
    have hneg : Canonical .binary64 (UnpackedFloat.neg (.finite s m e hm)) := hcanonical
    rw [stored_eq_settle hneg]
    exact if_neg (hexponent s m e hm hparts).not_gt

theorem float_sub_eq_add_neg (x y : Float) : x - y = x + -y := by
  apply parts_inj.mp
  rw [parts_sub, parts_add, parts_neg_eq, sub_eq_add_neg]

theorem StandsForReal.neg (h : StandsForReal x a) : StandsForReal (-x) (-a) := by
  rw [StandsForReal, parts_neg_eq]
  exact StandsFor.neg h

theorem neg_endOf (s : Sign) : -endOf s = endOf (-s) := by
  cases s <;> rfl

theorem isNumber_neg : IsNumber (-x) ↔ IsNumber x := by
  rw [IsNumber, IsNumber, parts_neg_eq]
  cases parts x <;> simp [UnpackedFloat.neg]

theorem value_neg (x : Float) : value (-x) = -value x := by
  by_cases hx : IsNumber x
  · cases hx.kind with
    | infinity s h =>
      have h' : parts (-x) = .infinity (-s) := by rw [parts_neg_eq, h]; rfl
      rw [value_of_infinity h, value_of_infinity h', neg_endOf]
    | real a h => rw [h.value_eq, h.neg.value_eq, EReal.coe_neg]
  · have hx' : ¬ IsNumber (-x) := mt isNumber_neg.mp hx
    rw [value_of_notANumber (not_not.mp hx), value_of_notANumber (not_not.mp hx'), neg_zero]

theorem isRounded_sub (hx : IsNumber x) (hy : IsNumber y) (h : Adds (value x) (-value y)) :
    IsRounded (x - y) (value x - value y) := by
  rw [← value_neg] at h
  have hsum := isRounded_add hx (isNumber_neg.mpr hy) h
  rw [value_neg, ← float_sub_eq_add_neg] at hsum
  exact hsum

theorem isNumber_sub_iff :
    IsNumber (x - y) ↔ IsNumber x ∧ IsNumber y ∧ Adds (value x) (-value y) := by
  rw [float_sub_eq_add_neg, isNumber_add_iff, isNumber_neg, value_neg]

theorem endOf_div (s : Sign) {b : ℝ} (hb : b ≠ 0) : ∃ t, endOf s / (b : EReal) = endOf t := by
  rcases hb.lt_or_gt with hb | hb
  · have hb' : (b : EReal) < 0 := EReal.coe_neg'.mpr hb
    cases s
    · exact ⟨.positive, EReal.bot_div_of_neg_ne_bot hb' (EReal.coe_ne_bot b)⟩
    · exact ⟨.negative, EReal.top_div_of_neg_ne_bot hb' (EReal.coe_ne_bot b)⟩
  · have hb' : 0 < (b : EReal) := EReal.coe_pos.mpr hb
    cases s
    · exact ⟨.negative, EReal.bot_div_of_pos_ne_top hb' (EReal.coe_ne_top b)⟩
    · exact ⟨.positive, EReal.top_div_of_pos_ne_top hb' (EReal.coe_ne_top b)⟩

/-- A quotient by a real number other than zero is the rounded exact one. -/
theorem isRounded_div {b : ℝ} (hx : IsNumber x) (hy : StandsForReal y b) (hb : b ≠ 0) :
    IsRounded (x / y) (value x / b) := by
  cases hx.kind with
  | infinity s h =>
    rcases hy.cases with ⟨rfl, -⟩ | ⟨t, n, f, hn, h', rfl⟩
    · exact absurd rfl hb
    · have hpos : (0 : ℝ) < ((n : ℝ) * 2 ^ f)⁻¹ := by positivity
      have hinv : (factor t * ((n : ℝ) * 2 ^ f))⁻¹ = factor t * ((n : ℝ) * 2 ^ f)⁻¹ := by
        cases t <;> simp [inv_neg]
      have hquotient : endOf s / ((factor t * (n * 2 ^ f) : ℝ) : EReal) = endOf (s / t) := by
        rw [EReal.div_eq_inv_mul, ← EReal.coe_inv, hinv, mul_comm, endOf_mul_coe s t hpos]
        cases s <;> cases t <;> rfl
      rw [value_of_infinity h, hquotient]
      apply isRounded_of_infinity
      rw [parts_div, h, h']
      exact stored_infinity _
  | real a h =>
    rw [h.value_eq, ← EReal.coe_div]
    exact isRounded_of_stored (parts_div x y) (StandsFor.div h hy hb)

theorem isNumber_of_div (h : IsNumber (x / y)) : IsNumber x := by
  intro hx
  have hparts : parts (x / y) = .notANumber := by
    rw [parts_div, hx]
    exact stored_notANumber
  exact h hparts

theorem isRounded_ofCount (n : ℕ) : IsRounded (ofCount n) (n : ℝ) := by
  have h := standsFor_normalize (F := .binary64) n 0 .positive
  rw [zpow_zero, mul_one, Int.cast_natCast] at h
  exact isRounded_of_stored (parts_ofCount n) h

end Landscape.Double
