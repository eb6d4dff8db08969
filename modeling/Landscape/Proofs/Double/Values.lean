import Landscape.Proofs.Double.Packing
import Landscape.Proofs.Double.Parts

namespace Landscape.Double
open Float.Model Float.Model.UnpackedFloat

def maxExponent : ℤ := 971

/-- A datum as it is stored: past the largest exponent there is only infinity. -/
def settle : UnpackedFloat → UnpackedFloat
  | .finite s m e h => if maxExponent < e then .infinity s else .finite s m e h
  | u => u

def stored (u : UnpackedFloat) : UnpackedFloat :=
  UnpackedFloat.unpack .binary64 (UnpackedFloat.pack .binary64 u)

theorem parts_ofModel (u : UnpackedFloat) : parts (.ofModel (.pack u)) = stored u :=
  parts_eq_unpack _

theorem stored_parts (x : Float) : stored (parts x) = parts x := by
  rw [parts_eq_unpack, stored, Float.Model.unpack, pack_unpack_of_valid x.toModel.valid]

theorem parts_inj {x y : Float} : parts x = parts y ↔ x = y := by
  constructor
  · intro h
    rw [parts_eq_unpack, parts_eq_unpack] at h
    have hbits := (unpack_inj_of_valid x.toModel.valid y.toModel.valid).mp h
    exact Float.toBits_inj.mp (UInt64.toBitVec_inj.mp hbits)
  · rintro rfl
    rfl

theorem stored_infinity (s : Sign) : stored (.infinity s) = .infinity s := by
  cases s <;> rfl

theorem stored_zero (s : Sign) : stored (.zero s) = .zero s := by
  cases s <;> rfl

theorem stored_notANumber : stored .notANumber = .notANumber := rfl

theorem stored_of_large {s : Sign} {m : ℕ} {e : ℤ} {hm : 0 < m} (he : maxExponent < e) :
    stored (.finite s m e hm) = .infinity s := by
  have hpack : UnpackedFloat.pack .binary64 (.finite s m e hm) =
      if 2048 ≤ (e + 1023 + 52).toNat + 1 then packedInfinity .binary64 s
      else if m.log2 + 1 = 53 then
        packComponents .binary64 s (BitVec.ofNat 11 (e + 1023 + 52).toNat) (BitVec.ofNat 52 m)
      else packComponents .binary64 s 0#11 (BitVec.ofNat 52 m) := rfl
  unfold maxExponent at he
  rw [stored, hpack, if_pos (by omega)]
  exact stored_infinity s

theorem stored_eq_settle {u : UnpackedFloat} (h : Canonical .binary64 u) : stored u = settle u := by
  rcases u with s | _ | s | ⟨s, m, e, hm⟩
  · exact stored_infinity s
  · exact stored_notANumber
  · exact stored_zero s
  · rw [settle]
    by_cases hlarge : maxExponent < e
    · rw [if_pos hlarge, stored_of_large hlarge]
    · rw [if_neg hlarge]
      exact unpack_pack_of_canonical h (not_lt.mp hlarge)

theorem mantissaBits_lt (bits : UInt64) : mantissaBits bits < 2 ^ 52 := by
  rw [← toNat_unpackMantissa]
  exact BitVec.isLt _

theorem exponentBits_lt (bits : UInt64) : exponentBits bits < 2048 := by
  rw [← toNat_unpackExponent]
  exact BitVec.isLt _

/-- A double is in canonical form, with an exponent that is not too large. -/
theorem canonical_parts (x : Float) :
    Canonical .binary64 (parts x) ∧ ∀ s m e h, parts x = .finite s m e h → e ≤ maxExponent := by
  have hmantissa := mantissaBits_lt x.toBits
  have hexponent := exponentBits_lt x.toBits
  have hbits : (2 : ℕ) ^ Format.binary64.mantissaBits = 2 ^ 53 := rfl
  have hmin : Format.binary64.minExponent = -1074 := rfl
  unfold parts
  simp only
  split_ifs with hlast hzero hleast hzero
  · exact ⟨trivial, nofun⟩
  · exact ⟨trivial, nofun⟩
  · exact ⟨trivial, nofun⟩
  · refine ⟨⟨by omega, by omega, .inr rfl⟩, ?_⟩
    rintro _ _ _ _ ⟨⟩
    decide
  · refine ⟨⟨by omega, by omega, .inl ?_⟩, ?_⟩
    · change 2 ^ 52 ≤ _
      omega
    · rintro _ _ _ _ ⟨⟩
      unfold maxExponent
      omega

def IsNumber (x : Float) : Prop :=
  parts x ≠ .notANumber

noncomputable def endOf : Sign → EReal
  | .positive => ⊤
  | .negative => ⊥

/-- The number for which a double stands; what is no number counts as zero. -/
noncomputable def value (x : Float) : EReal :=
  match parts x with
  | .infinity s => endOf s
  | u => real u

def StandsForReal (x : Float) (r : ℝ) : Prop :=
  StandsFor .binary64 (parts x) r

theorem isNaN_eq (x : Float) : x.isNaN = (parts x).isNaN := by
  rw [parts_eq_unpack]
  rfl

theorem isFinite_eq (x : Float) : x.isFinite = (parts x).isFinite := by
  rw [parts_eq_unpack]
  rfl

theorem isNaN_eq_false_iff {x : Float} : x.isNaN = false ↔ IsNumber x := by
  rw [isNaN_eq, IsNumber, ne_eq, ← isNaN_iff, Bool.not_eq_true]

variable {x y : Float} {r : ℝ}

theorem StandsForReal.isNumber (h : StandsForReal x r) : IsNumber x := by
  intro hparts
  have := h.isFinite
  rw [hparts] at this
  cases this

theorem StandsForReal.value_eq (h : StandsForReal x r) : value x = r := by
  have hfinite := h.isFinite
  rw [← h.real_eq]
  unfold value
  split
  · rename_i hparts
    rw [hparts] at hfinite
    cases hfinite
  · rfl

theorem standsForReal_of_isFinite (h : x.isFinite = true) : StandsForReal x (real (parts x)) :=
  ⟨isFinite_eq x ▸ h, (canonical_parts x).1, rfl⟩

inductive Kind (x : Float) : Prop where
  | infinity (s : Sign) (h : parts x = .infinity s)
  | real (r : ℝ) (h : StandsForReal x r)

theorem IsNumber.kind (h : IsNumber x) : Kind x := by
  by_cases hfinite : x.isFinite = true
  · exact .real _ (standsForReal_of_isFinite hfinite)
  · rw [isFinite_eq] at hfinite
    rcases hparts : parts x with s | _ | s | ⟨s, m, e, hm⟩
    · exact .infinity s hparts
    · exact absurd hparts h
    · exact absurd (by rw [hparts]; rfl) hfinite
    · exact absurd (by rw [hparts]; rfl) hfinite

theorem isFinite_iff : x.isFinite = true ↔ ∃ r, StandsForReal x r := by
  constructor
  · intro h
    exact ⟨_, standsForReal_of_isFinite h⟩
  · rintro ⟨r, h⟩
    rw [isFinite_eq]
    exact h.isFinite

theorem isNumber_of_infinity {s : Sign} (h : parts x = .infinity s) : IsNumber x := by
  simp [IsNumber, h]

theorem value_of_infinity {s : Sign} (h : parts x = .infinity s) : value x = endOf s := by
  unfold value
  rw [h]

theorem lt_of_exponent_lt {F : Format} {m n : ℕ} {e f : ℤ} {s t : Sign} {hm : 0 < m} {hn : 0 < n}
    (hx : Canonical F (.finite s m e hm)) (hy : Canonical F (.finite t n f hn)) (h : e < f) :
    (m : ℝ) * 2 ^ e < n * 2 ^ f := by
  obtain ⟨hlt, hmin, -⟩ := hx
  have hdigits : 2 ^ F.mantissaBitsWithoutImplicit ≤ n := by
    have := hy.2.2
    omega
  have hlt' : (m : ℝ) < 2 ^ F.mantissaBits := by exact_mod_cast hlt
  have hdigits' : (2 : ℝ) ^ F.mantissaBitsWithoutImplicit ≤ n := by exact_mod_cast hdigits
  calc
    (m : ℝ) * 2 ^ e < 2 ^ F.mantissaBits * 2 ^ e := by gcongr
    _ = 2 ^ F.mantissaBitsWithoutImplicit * 2 ^ (e + 1) := by
      rw [mantissaBits_eq, zpow_add_one₀ (by norm_num)]
      ring
    _ ≤ 2 ^ F.mantissaBitsWithoutImplicit * 2 ^ f := by
      gcongr
      · norm_num
      · omega
    _ ≤ n * 2 ^ f := by gcongr

theorem compare_digits {F : Format} {m n : ℕ} {e f : ℤ} {s t : Sign} {hm : 0 < m} {hn : 0 < n}
    (hx : Canonical F (.finite s m e hm)) (hy : Canonical F (.finite t n f hn)) :
    (compare e f).then (compare m n) = compare ((m : ℝ) * 2 ^ e) (n * 2 ^ f) := by
  rcases lt_trichotomy e f with h | rfl | h
  · rw [compare_lt_iff_lt.mpr h, compare_lt_iff_lt.mpr (lt_of_exponent_lt hx hy h)]
    rfl
  · have hpos : (0 : ℝ) < 2 ^ e := by positivity
    rw [compare_eq_iff_eq.mpr rfl]
    rcases lt_trichotomy m n with h | rfl | h
    · have h' : (m : ℝ) < n := by exact_mod_cast h
      rw [compare_lt_iff_lt.mpr h, compare_lt_iff_lt.mpr (by gcongr)]
      rfl
    · rw [compare_eq_iff_eq.mpr rfl, compare_eq_iff_eq.mpr rfl]
      rfl
    · have h' : (n : ℝ) < m := by exact_mod_cast h
      rw [compare_gt_iff_gt.mpr h, compare_gt_iff_gt.mpr (by gcongr)]
      rfl
  · rw [compare_gt_iff_gt.mpr h, compare_gt_iff_gt.mpr (lt_of_exponent_lt hy hx h)]
    rfl

theorem digits_inj {F : Format} {m n : ℕ} {e f : ℤ} {s t : Sign} {hm : 0 < m} {hn : 0 < n}
    (hx : Canonical F (.finite s m e hm)) (hy : Canonical F (.finite t n f hn))
    (h : (m : ℝ) * 2 ^ e = n * 2 ^ f) : m = n ∧ e = f := by
  have hcompare := compare_digits hx hy
  rw [compare_eq_iff_eq.mpr h, Ordering.then_eq_eq] at hcompare
  exact ⟨compare_eq_iff_eq.mp hcompare.2, compare_eq_iff_eq.mp hcompare.1⟩

/-- Only zero has more than one datum in canonical form. -/
theorem StandsFor.eq_of_ne_zero {F : Format} {u v : UnpackedFloat} {a : ℝ} (hu : StandsFor F u a)
    (hv : StandsFor F v a) (ha : a ≠ 0) : u = v := by
  obtain ⟨hfinite, hcanonical, rfl⟩ := hu
  obtain ⟨hfinite', hcanonical', heq⟩ := hv
  rcases u with s | _ | s | ⟨s, m, e, hm⟩
  · cases hfinite
  · cases hfinite
  · exact absurd rfl ha
  · rcases v with t | _ | t | ⟨t, n, f, hn⟩
    · cases hfinite'
    · cases hfinite'
    · exact absurd heq.symm ha
    · rw [real_finite, real_finite] at heq
      have hpos : (0 : ℝ) < m * 2 ^ e := by positivity
      have hpos' : (0 : ℝ) < n * 2 ^ f := by positivity
      have hsign : t = s := by
        cases s <;> cases t <;> first
          | rfl
          | (simp only [factor_positive, factor_negative] at heq; linarith)
      subst hsign
      have hfactor : factor t ≠ 0 := by cases t <;> simp
      obtain ⟨rfl, rfl⟩ := digits_inj hcanonical' hcanonical (mul_left_cancel₀ hfactor heq)
      rfl

theorem compare_neg_neg (a b : ℝ) : compare (-a) (-b) = (compare a b).swap := by
  rcases lt_trichotomy a b with h | rfl | h
  · rw [compare_lt_iff_lt.mpr h, compare_gt_iff_gt.mpr (neg_lt_neg h)]
    rfl
  · rw [compare_eq_iff_eq.mpr rfl, compare_eq_iff_eq.mpr rfl]
    rfl
  · rw [compare_gt_iff_gt.mpr h, compare_lt_iff_lt.mpr (neg_lt_neg h)]
    rfl

theorem compare_coe (a b : ℝ) : compare (a : EReal) b = compare a b := by
  rcases lt_trichotomy a b with h | rfl | h
  · rw [compare_lt_iff_lt.mpr h, compare_lt_iff_lt.mpr (EReal.coe_lt_coe_iff.mpr h)]
  · rw [compare_eq_iff_eq.mpr rfl, compare_eq_iff_eq.mpr rfl]
  · rw [compare_gt_iff_gt.mpr h, compare_gt_iff_gt.mpr (EReal.coe_lt_coe_iff.mpr h)]

theorem compare_real {F : Format} {u v : UnpackedFloat} {a b : ℝ} (hu : StandsFor F u a)
    (hv : StandsFor F v b) : u.compare v = some (compare a b) := by
  obtain ⟨hfinite, hcanonical, rfl⟩ := hu
  obtain ⟨hfinite', hcanonical', rfl⟩ := hv
  rcases u with s | _ | s | ⟨s, m, e, hm⟩
  · cases hfinite
  · cases hfinite
  · rcases v with t | _ | t | ⟨t, n, f, hn⟩
    · cases hfinite'
    · cases hfinite'
    · exact congrArg some (compare_eq_iff_eq.mpr rfl).symm
    · have hpos : (0 : ℝ) < n * 2 ^ f := by positivity
      cases t
      · exact congrArg some (compare_gt_iff_gt.mpr (by simp [real, hpos])).symm
      · exact congrArg some (compare_lt_iff_lt.mpr (by simpa [real] using hpos)).symm
  · have hpos : (0 : ℝ) < m * 2 ^ e := by positivity
    rcases v with t | _ | t | ⟨t, n, f, hn⟩
    · cases hfinite'
    · cases hfinite'
    · cases s
      · exact congrArg some (compare_lt_iff_lt.mpr (by simp [real, hpos])).symm
      · exact congrArg some (compare_gt_iff_gt.mpr (by simpa [real] using hpos)).symm
    · have hpos' : (0 : ℝ) < n * 2 ^ f := by positivity
      have hdigits := compare_digits hcanonical hcanonical'
      cases s <;> cases t
      · simp only [real, factor_negative, neg_mul, one_mul, compare_neg_neg, ← hdigits]
        rfl
      · exact congrArg some (compare_lt_iff_lt.mpr (by simp [real]; linarith)).symm
      · exact congrArg some (compare_gt_iff_gt.mpr (by simp [real]; linarith)).symm
      · simp only [real, factor_positive, one_mul, ← hdigits]
        rfl

theorem compare_infinity (s t : Sign) : compare s t = compare (endOf s) (endOf t) := by
  cases s <;> cases t
  · exact (compare_eq_iff_eq.mpr rfl).symm
  · exact (compare_lt_iff_lt.mpr bot_lt_top).symm
  · exact (compare_gt_iff_gt.mpr bot_lt_top).symm
  · exact (compare_eq_iff_eq.mpr rfl).symm

theorem compare_infinity_real (s : Sign) {u : UnpackedFloat} {r : ℝ}
    (hu : StandsFor .binary64 u r) :
    (UnpackedFloat.infinity s).compare u = some (compare (endOf s) (r : EReal)) ∧
      u.compare (.infinity s) = some (compare (r : EReal) (endOf s)) := by
  have hfinite := hu.isFinite
  have hlt : ((r : EReal) < ⊤) ∧ ⊥ < (r : EReal) := ⟨EReal.coe_lt_top r, EReal.bot_lt_coe r⟩
  cases s
  · rw [endOf, compare_lt_iff_lt.mpr hlt.2, compare_gt_iff_gt.mpr hlt.2]
    cases u <;> first | exact ⟨rfl, rfl⟩ | cases hfinite
  · rw [endOf, compare_gt_iff_gt.mpr hlt.1, compare_lt_iff_lt.mpr hlt.1]
    cases u <;> first | exact ⟨rfl, rfl⟩ | cases hfinite

theorem compare_parts (hx : IsNumber x) (hy : IsNumber y) :
    (parts x).compare (parts y) = some (compare (value x) (value y)) := by
  cases hx.kind with
  | infinity s h =>
    rw [value_of_infinity h, h]
    cases hy.kind with
    | infinity t h' =>
      rw [value_of_infinity h', h', ← compare_infinity]
      rfl
    | real r h' =>
      rw [h'.value_eq]
      exact (compare_infinity_real s h').1
  | real r h =>
    rw [h.value_eq]
    cases hy.kind with
    | infinity t h' =>
      rw [value_of_infinity h', h']
      exact (compare_infinity_real t h).2
    | real q h' =>
      rw [h'.value_eq, compare_coe]
      exact compare_real h h'

/-- What is no number compares with nothing. -/
theorem compare_eq_none_iff : (parts x).compare (parts y) = none ↔ ¬ (IsNumber x ∧ IsNumber y) := by
  by_cases h : IsNumber x ∧ IsNumber y
  · simp [compare_parts h.1 h.2, h]
  · simp only [h, not_false_iff, iff_true]
    rcases not_and_or.mp h with hx | hy
    · rw [not_not.mp hx]
      rfl
    · rw [not_not.mp hy]
      cases parts x <;> rfl

theorem lt_iff : x < y ↔ IsNumber x ∧ IsNumber y ∧ value x < value y := by
  have hlt : x < y ↔ ((parts x).compare (parts y) == some .lt) = true := by
    rw [parts_eq_unpack, parts_eq_unpack]
    exact decide_eq_true_iff
  rw [hlt, beq_iff_eq]
  by_cases h : IsNumber x ∧ IsNumber y
  · rw [compare_parts h.1 h.2, Option.some_inj, compare_lt_iff_lt]
    simp [h]
  · rw [compare_eq_none_iff.mpr h]
    simp [← and_assoc, h]

theorem beq_iff : (x == y) = true ↔ IsNumber x ∧ IsNumber y ∧ value x = value y := by
  have hbeq : (x == y) = ((parts x).compare (parts y) == some .eq) := by
    rw [parts_eq_unpack, parts_eq_unpack]
    rfl
  rw [hbeq, beq_iff_eq]
  by_cases h : IsNumber x ∧ IsNumber y
  · rw [compare_parts h.1 h.2, Option.some_inj, compare_eq_iff_eq]
    simp [h]
  · rw [compare_eq_none_iff.mpr h]
    simp [← and_assoc, h]

theorem le_iff : x ≤ y ↔ IsNumber x ∧ IsNumber y ∧ value x ≤ value y := by
  have hle : x ≤ y ↔ ((parts x).compare (parts y)).any (·.isLE) = true := by
    rw [parts_eq_unpack, parts_eq_unpack]
    exact decide_eq_true_iff
  rw [hle]
  by_cases h : IsNumber x ∧ IsNumber y
  · rw [compare_parts h.1 h.2, Option.any_some, ← Ordering.ne_gt_iff_isLE, ← ne_eq,
      compare_le_iff_le]
    simp [h]
  · rw [compare_eq_none_iff.mpr h]
    simp [← and_assoc, h]

theorem trans_le {z : Float} (h : x ≤ y) (h' : y ≤ z) : x ≤ z := by
  obtain ⟨hx, -, hle⟩ := le_iff.mp h
  obtain ⟨-, hz, hle'⟩ := le_iff.mp h'
  exact le_iff.mpr ⟨hx, hz, hle.trans hle'⟩

end Landscape.Double
