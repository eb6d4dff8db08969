import Mathlib

namespace Landscape.Double
open Float.Model Float.Model.UnpackedFloat

noncomputable def roundEven (x : ℝ) : ℤ :=
  if Int.fract x < 1 / 2 then ⌊x⌋
  else if 1 / 2 < Int.fract x then ⌊x⌋ + 1
  else ⌊x⌋ + ⌊x⌋ % 2

theorem floor_le_roundEven (x : ℝ) : ⌊x⌋ ≤ roundEven x := by
  unfold roundEven
  split_ifs <;> omega

theorem roundEven_le_floor_add_one (x : ℝ) : roundEven x ≤ ⌊x⌋ + 1 := by
  unfold roundEven
  split_ifs <;> omega

@[simp] theorem roundEven_intCast (n : ℤ) : roundEven n = n := by
  simp [roundEven]

theorem abs_roundEven_sub_le (x : ℝ) : |roundEven x - x| ≤ 1 / 2 := by
  have hfract : Int.fract x = x - ⌊x⌋ := rfl
  have hnonneg := Int.fract_nonneg x
  have hlt := Int.fract_lt_one x
  have hparity : (⌊x⌋ % 2 = 0) ∨ (⌊x⌋ % 2 = 1) := Int.emod_two_eq_zero_or_one _
  rw [abs_le]
  unfold roundEven
  split_ifs with hlow hhigh
  · constructor <;> linarith
  · push_cast
    constructor <;> linarith
  · rcases hparity with h | h <;> rw [h] <;> push_cast <;> constructor <;> linarith

theorem roundEven_mono : Monotone roundEven := by
  intro x y h
  rcases (Int.floor_mono h).lt_or_eq with hlt | heq
  · calc
      roundEven x ≤ ⌊x⌋ + 1 := roundEven_le_floor_add_one x
      _ ≤ ⌊y⌋ := hlt
      _ ≤ roundEven y := floor_le_roundEven y
  · -- In one unit interval the larger number has the larger fraction.
    have hfract : Int.fract x ≤ Int.fract y := by
      rw [Int.fract, Int.fract, heq]
      linarith
    unfold roundEven
    rw [heq]
    split_ifs <;> first | omega | (exfalso; linarith)

theorem roundEven_neg (x : ℝ) : roundEven (-x) = -roundEven x := by
  by_cases hx : Int.fract x = 0
  · obtain ⟨n, rfl⟩ := Int.fract_eq_zero_iff.mp hx
    rw [← Int.cast_neg, roundEven_intCast, roundEven_intCast]
  · have hfloor : ⌊-x⌋ = -⌊x⌋ - 1 := by
      have h := Int.ceil_eq_floor_add_one_iff_notMem x |>.mpr (mt Int.fract_eq_zero_iff.mpr hx)
      rw [Int.floor_neg, h]
      ring
    have hfract : Int.fract (-x) = 1 - Int.fract x := Int.fract_neg hx
    unfold roundEven
    rw [hfloor, hfract]
    split_ifs <;> first | omega | (exfalso; linarith)

variable (F : Format)

/-- The exponent of the unit to which a number of this size is rounded. -/
noncomputable def place (x : ℝ) : ℤ :=
  max (Int.log 2 |x| + 1 - F.mantissaBits) F.minExponent

noncomputable def nearest (x : ℝ) : ℝ :=
  roundEven (x / 2 ^ place F x) * 2 ^ place F x

variable {F} {x y : ℝ}

theorem minExponent_le_place : F.minExponent ≤ place F x :=
  le_max_right _ _

@[simp] theorem place_neg : place F (-x) = place F x := by
  rw [place, place, abs_neg]

theorem place_mono (hx : 0 < x) (h : x ≤ y) : place F x ≤ place F y := by
  have hlog : Int.log 2 |x| ≤ Int.log 2 |y| := by
    rw [abs_of_pos hx, abs_of_pos (hx.trans_le h)]
    exact Int.log_mono_right hx h
  unfold place
  omega

theorem lt_of_place (hx : 0 < x) : x < 2 ^ (place F x + F.mantissaBits) := by
  have hlog : x < 2 ^ (Int.log 2 x + 1) := by
    exact_mod_cast Int.lt_zpow_succ_log_self (by decide : 1 < 2) x
  apply hlog.trans_le
  apply zpow_le_zpow_right₀ (by norm_num)
  rw [place, abs_of_pos hx]
  omega

theorem le_of_minExponent_lt_place (hx : 0 < x) (h : F.minExponent < place F x) :
    2 ^ (place F x + F.mantissaBits - 1) ≤ x := by
  have hlog : (2 : ℝ) ^ Int.log 2 x ≤ x := by
    exact_mod_cast Int.zpow_log_le_self (by decide : 1 < 2) hx
  refine le_trans ?_ hlog
  apply zpow_le_zpow_right₀ (by norm_num)
  rw [place, abs_of_pos hx] at h ⊢
  omega

@[simp] theorem nearest_zero : nearest F 0 = 0 := by
  have h : roundEven 0 = 0 := by exact_mod_cast roundEven_intCast 0
  simp [nearest, h]

@[simp] theorem nearest_neg : nearest F (-x) = -nearest F x := by
  simp [nearest, neg_div, roundEven_neg]

theorem nearest_le_of_le {n : ℤ} (h : x ≤ n * 2 ^ place F x) :
    nearest F x ≤ n * 2 ^ place F x := by
  have hpos : (0 : ℝ) < 2 ^ place F x := by positivity
  have hround : roundEven (x / 2 ^ place F x) ≤ n := by
    rw [← roundEven_intCast n]
    exact roundEven_mono ((div_le_iff₀ hpos).mpr h)
  exact mul_le_mul_of_nonneg_right (by exact_mod_cast hround) hpos.le

theorem le_nearest_of_le {n : ℤ} (h : n * 2 ^ place F x ≤ x) :
    n * 2 ^ place F x ≤ nearest F x := by
  have hpos : (0 : ℝ) < 2 ^ place F x := by positivity
  have hround : n ≤ roundEven (x / 2 ^ place F x) := by
    rw [← roundEven_intCast n]
    exact roundEven_mono ((le_div_iff₀ hpos).mpr h)
  exact mul_le_mul_of_nonneg_right (by exact_mod_cast hround) hpos.le

theorem nearest_nonneg (hx : 0 ≤ x) : 0 ≤ nearest F x := by
  have h := le_nearest_of_le (F := F) (x := x) (n := 0) (by simpa using hx)
  simpa using h

/-- Rounding moves a number by half a unit at most. -/
theorem abs_nearest_sub_le (x : ℝ) : |nearest F x - x| ≤ 2 ^ place F x / 2 := by
  have hpos : (0 : ℝ) < 2 ^ place F x := by positivity
  have hunits : nearest F x - x = (roundEven (x / 2 ^ place F x) - x / 2 ^ place F x) * 2 ^ place F x := by
    rw [nearest, sub_mul, div_mul_cancel₀ x hpos.ne']
  calc
    |nearest F x - x| = |roundEven (x / 2 ^ place F x) - x / 2 ^ place F x| * 2 ^ place F x := by
      rw [hunits, abs_mul, abs_of_pos hpos]
    _ ≤ 1 / 2 * 2 ^ place F x := by
      gcongr
      exact abs_roundEven_sub_le _
    _ = 2 ^ place F x / 2 := by ring

theorem nearest_eq_self {n e : ℤ} (hx : x = n * 2 ^ e) (he : place F x ≤ e) :
    nearest F x = x := by
  obtain ⟨k, hk⟩ := Int.le.dest he
  have hquotient : x / 2 ^ place F x = ((n * 2 ^ k : ℤ) : ℝ) := by
    rw [div_eq_iff (by positivity)]
    push_cast
    rw [mul_assoc, ← zpow_natCast, ← zpow_add₀ (by norm_num), add_comm, hk, ← hx]
  rw [nearest, hquotient, roundEven_intCast, ← hquotient]
  exact div_mul_cancel₀ x (by positivity)

/-- Numbers with few digits and a large enough exponent are numbers of the format. -/
theorem nearest_of_abs_lt {n e : ℤ} (hn : |n| < 2 ^ F.mantissaBits) (he : F.minExponent ≤ e) :
    nearest F (n * 2 ^ e) = n * 2 ^ e := by
  by_cases hzero : n = 0
  · simp [hzero]
  · refine nearest_eq_self rfl (max_le ?_ he)
    have habs : |(n : ℝ) * 2 ^ e| < 2 ^ (F.mantissaBits + e) := by
      have hcast : |(n : ℝ)| < 2 ^ F.mantissaBits := by exact_mod_cast hn
      rw [abs_mul, abs_of_pos (by positivity : (0 : ℝ) < 2 ^ e), zpow_add₀ (by norm_num),
        zpow_natCast]
      exact mul_lt_mul_of_pos_right hcast (by positivity)
    have hpos : 0 < |(n : ℝ) * 2 ^ e| := by positivity
    have hlog : Int.log 2 |(n : ℝ) * 2 ^ e| < F.mantissaBits + e :=
      (Int.lt_zpow_iff_log_lt (by decide) hpos).mp (by exact_mod_cast habs)
    omega

theorem nearest_mono_of_pos (hx : 0 < x) (h : x ≤ y) : nearest F x ≤ nearest F y := by
  have hy : 0 < y := hx.trans_le h
  rcases (place_mono (F := F) hx h).lt_or_eq with hlt | heq
  · -- Between different units lies a power of two that both sides respect.
    have hmin : F.minExponent < place F y := minExponent_le_place.trans_lt hlt
    obtain ⟨p, hp⟩ : ∃ p, F.mantissaBits = p + 1 := ⟨F.mantissaBitsWithoutImplicit, by
      rw [Format.mantissaBits, Nat.add_comm]⟩
    have hupper : nearest F x ≤ 2 ^ (place F x + F.mantissaBits) := by
      have hbound := nearest_le_of_le (F := F) (x := x) (n := 2 ^ F.mantissaBits) (by
        push_cast
        rw [← zpow_natCast, ← zpow_add₀ (by norm_num), add_comm]
        exact (lt_of_place hx).le)
      push_cast at hbound
      rwa [← zpow_natCast, ← zpow_add₀ (by norm_num), add_comm] at hbound
    have hlower : 2 ^ (place F y + F.mantissaBits - 1) ≤ nearest F y := by
      have hexponent : place F y + F.mantissaBits - 1 = p + place F y := by
        rw [hp]
        push_cast
        ring
      have hle := le_of_minExponent_lt_place hy hmin
      have hbound := le_nearest_of_le (F := F) (x := y) (n := 2 ^ p) (by
        push_cast
        rw [← zpow_natCast, ← zpow_add₀ (by norm_num), ← hexponent]
        exact hle)
      push_cast at hbound
      rwa [← zpow_natCast, ← zpow_add₀ (by norm_num), ← hexponent] at hbound
    calc
      nearest F x ≤ 2 ^ (place F x + F.mantissaBits) := hupper
      _ ≤ 2 ^ (place F y + F.mantissaBits - 1) := by
        apply zpow_le_zpow_right₀ (by norm_num)
        omega
      _ ≤ nearest F y := hlower
  · unfold nearest
    rw [heq]
    have hround := roundEven_mono (div_le_div_of_nonneg_right h
      (by positivity : (0 : ℝ) ≤ 2 ^ place F y))
    exact mul_le_mul_of_nonneg_right (by exact_mod_cast hround) (by positivity)

theorem nearest_mono (F : Format) : Monotone (nearest F) := by
  intro x y h
  rcases lt_or_ge 0 x with hx | hx
  · exact nearest_mono_of_pos hx h
  · have hx' : 0 ≤ -nearest F x := by
      rw [← nearest_neg]
      exact nearest_nonneg (by linarith)
    rcases le_or_gt 0 y with hy | hy
    · linarith [nearest_nonneg (F := F) hy]
    · have hneg := nearest_mono_of_pos (F := F) (by linarith : 0 < -y) (by linarith : -y ≤ -x)
      rw [nearest_neg, nearest_neg] at hneg
      linarith

theorem abs_nearest_le {n e : ℤ} (hn : |n| < 2 ^ F.mantissaBits) (he : F.minExponent ≤ e)
    (h : |x| ≤ n * 2 ^ e) : |nearest F x| ≤ n * 2 ^ e := by
  have hkeep := nearest_of_abs_lt hn he
  obtain ⟨hlower, hupper⟩ := abs_le.mp h
  rw [abs_le]
  constructor
  · rw [← hkeep, ← nearest_neg]
    exact nearest_mono F hlower
  · rw [← hkeep]
    exact nearest_mono F hupper

/-- What a double holds of a rounded number: past the largest double it is infinite. -/
noncomputable def limit (r : ℝ) : EReal :=
  if 2 ^ (1024 : ℤ) ≤ r then ⊤ else if r ≤ -2 ^ (1024 : ℤ) then ⊥ else r

noncomputable def rounded (a : EReal) : EReal :=
  if a = ⊤ then ⊤ else if a = ⊥ then ⊥ else limit (nearest .binary64 a.toReal)

theorem limit_mono : Monotone limit := by
  intro r q h
  unfold limit
  split_ifs <;> first
    | exact le_rfl
    | exact le_top
    | exact bot_le
    | exact EReal.coe_le_coe_iff.mpr h
    | (exfalso; linarith)

@[simp] theorem limit_neg (r : ℝ) : limit (-r) = -limit r := by
  have hpos : (0 : ℝ) < 2 ^ (1024 : ℤ) := by positivity
  unfold limit
  generalize (2 : ℝ) ^ (1024 : ℤ) = c at hpos ⊢
  split_ifs <;> first | rfl | (exfalso; linarith)

theorem limit_of_abs_lt {r : ℝ} (h : |r| < 2 ^ (1024 : ℤ)) : limit r = r := by
  obtain ⟨hlower, hupper⟩ := abs_lt.mp h
  rw [limit, if_neg hupper.not_ge, if_neg hlower.not_ge]

theorem eq_of_limit_eq {r q : ℝ} (h : limit r = q) : r = q := by
  unfold limit at h
  split_ifs at h
  · exact absurd h.symm (EReal.coe_ne_top q)
  · exact absurd h.symm (EReal.coe_ne_bot q)
  · exact EReal.coe_eq_coe_iff.mp h

@[simp] theorem rounded_top : rounded ⊤ = ⊤ := if_pos rfl

@[simp] theorem rounded_bot : rounded ⊥ = ⊥ := by
  simp [rounded]

@[simp] theorem rounded_coe (r : ℝ) : rounded r = limit (nearest .binary64 r) := by
  simp [rounded]

@[simp] theorem rounded_zero : rounded 0 = 0 := by
  rw [← EReal.coe_zero, rounded_coe, nearest_zero, limit_of_abs_lt (by simp)]

@[simp] theorem rounded_neg (a : EReal) : rounded (-a) = -rounded a := by
  induction a with
  | bot => simp
  | coe r => rw [← EReal.coe_neg, rounded_coe, rounded_coe, nearest_neg, limit_neg]
  | top => simp

theorem rounded_mono : Monotone rounded := by
  intro a b h
  induction a with
  | bot => simp
  | top => rw [top_le_iff.mp h]
  | coe r =>
    induction b with
    | bot => exact absurd h (by simp)
    | top => simp
    | coe q =>
      rw [rounded_coe, rounded_coe]
      exact limit_mono (nearest_mono _ (EReal.coe_le_coe_iff.mp h))

theorem rounded_nonneg {a : EReal} (h : 0 ≤ a) : 0 ≤ rounded a := by
  simpa using rounded_mono h

/-- The form in which numbers of a format are written: as many digits as fit, fewer only at the least
exponent. -/
def Canonical (F : Format) : UnpackedFloat → Prop
  | .finite _ m e _ => m < 2 ^ F.mantissaBits ∧ F.minExponent ≤ e ∧
      (2 ^ F.mantissaBitsWithoutImplicit ≤ m ∨ e = F.minExponent)
  | _ => True

noncomputable def factor : Sign → ℝ
  | .positive => 1
  | .negative => -1

noncomputable def real : UnpackedFloat → ℝ
  | .finite s m e _ => factor s * (m * 2 ^ e)
  | _ => 0

theorem real_finite (s : Sign) (m : ℕ) (e : ℤ) (h : 0 < m) :
    real (.finite s m e h) = factor s * (m * 2 ^ e) := rfl

theorem real_zero (s : Sign) : real (.zero s) = 0 := rfl

structure StandsFor (F : Format) (u : UnpackedFloat) (x : ℝ) : Prop where
  isFinite : u.isFinite = true
  canonical : Canonical F u
  real_eq : real u = x

@[simp] theorem factor_positive : factor .positive = 1 := rfl

@[simp] theorem factor_negative : factor .negative = -1 := rfl

@[simp] theorem factor_mul (s t : Sign) : factor (s * t) = factor s * factor t := by
  cases s <;> cases t
  · exact (by norm_num : (1 : ℝ) = -1 * -1)
  · exact (by norm_num : (-1 : ℝ) = -1 * 1)
  · exact (by norm_num : (-1 : ℝ) = 1 * -1)
  · exact (by norm_num : (1 : ℝ) = 1 * 1)

@[simp] theorem factor_neg (s : Sign) : factor (-s) = -factor s := by
  cases s
  · exact (by norm_num : (1 : ℝ) = - -1)
  · rfl

theorem apply_eq_factor (s : Sign) (n : ℤ) : (s.apply n : ℝ) = factor s * n := by
  cases s <;> simp [Sign.apply, factor]

theorem nearest_factor_mul (s : Sign) (x : ℝ) :
    nearest F (factor s * x) = factor s * nearest F x := by
  cases s <;> simp [factor]

theorem mantissaBits_eq (F : Format) :
    F.mantissaBits = F.mantissaBitsWithoutImplicit + 1 :=
  Nat.add_comm _ _

variable {u : UnpackedFloat} {a : ℝ} {m : ℕ} {e : ℤ}

/-- What is rounded to zero is no larger than half of the least unit. -/
theorem abs_le_of_nearest_eq_zero (h : nearest F x = 0) : |x| ≤ 2 ^ F.minExponent / 2 := by
  have hbound := abs_nearest_sub_le (F := F) x
  rw [h, zero_sub, abs_neg] at hbound
  rcases minExponent_le_place.eq_or_lt with hplace | hplace
  · rwa [hplace]
  · -- A larger unit belongs to a number of at least that unit.
    by_contra hlarge
    have hpos : 0 < |x| := lt_trans (by positivity) (not_le.mp hlarge)
    have habs : place F |x| = place F x := by rw [place, place, abs_abs]
    have hle := le_of_minExponent_lt_place hpos (habs ▸ hplace)
    have hunit : (2 : ℝ) ^ place F x ≤ 2 ^ (place F |x| + F.mantissaBits - 1) := by
      apply zpow_le_zpow_right₀ (by norm_num)
      rw [habs, mantissaBits_eq]
      omega
    have hunit' : (0 : ℝ) < 2 ^ place F x := by positivity
    linarith

theorem standsFor_finite (s : Sign) (hpos : 0 < m) (hm : m < 2 ^ F.mantissaBits)
    (he : F.minExponent ≤ e)
    (hdigits : 2 ^ F.mantissaBitsWithoutImplicit ≤ m ∨ e = F.minExponent) :
    StandsFor F (.finite s m e hpos) (factor s * (m * 2 ^ e)) :=
  ⟨rfl, ⟨hm, he, hdigits⟩, rfl⟩

theorem standsFor_zero (F : Format) (s : Sign) : StandsFor F (.zero s) 0 :=
  ⟨rfl, trivial, rfl⟩

theorem StandsFor.nearest_eq (h : StandsFor F u a) : nearest F a = a := by
  obtain ⟨-, hcanonical, rfl⟩ := h
  rcases u with s | _ | s | ⟨s, m, e, hm⟩
  · exact nearest_zero
  · exact nearest_zero
  · exact nearest_zero
  · obtain ⟨hlt, hmin, -⟩ := hcanonical
    rw [real, nearest_factor_mul]
    have habs : |(m : ℤ)| < 2 ^ F.mantissaBits := by
      rw [abs_of_nonneg (Int.natCast_nonneg m)]
      exact_mod_cast hlt
    exact congrArg _ (by exact_mod_cast nearest_of_abs_lt habs hmin)

end Landscape.Double
