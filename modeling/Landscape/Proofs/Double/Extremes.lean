import Landscape.Double.Basic
import Landscape.Proofs.Double.Reals

namespace Landscape.Double

variable {x y : Float}

theorem lesser_eq (hx : IsNumber x) : lesser x y = if y < x then y else x := by
  rw [lesser, isNaN_eq_false_iff.mpr hx]
  by_cases hy : IsNumber y
  · rw [isNaN_eq_false_iff.mpr hy]
    rfl
  · have hlt : ¬ y < x := fun h => hy (lt_iff.mp h).1
    rw [if_neg hlt]
    simp

theorem greater_eq (hx : IsNumber x) : greater x y = if x < y then y else x := by
  rw [greater, isNaN_eq_false_iff.mpr hx]
  by_cases hy : IsNumber y
  · rw [isNaN_eq_false_iff.mpr hy]
    rfl
  · have hlt : ¬ x < y := fun h => hy (lt_iff.mp h).2.1
    rw [if_neg hlt]
    simp

theorem lesser_mem (x y : Float) : lesser x y = x ∨ lesser x y = y := by
  unfold lesser
  split_ifs <;> simp

theorem greater_mem (x y : Float) : greater x y = x ∨ greater x y = y := by
  unfold greater
  split_ifs <;> simp

theorem foldl_mem {f : Float → Float → Float} (h : ∀ x y, f x y = x ∨ f x y = y) (start : Float)
    (l : List Float) : l.foldl f start ∈ start :: l := by
  induction l generalizing start with
  | nil => exact List.mem_cons_self
  | cons y l ih =>
    rw [List.foldl_cons]
    rcases List.mem_cons.mp (ih (f start y)) with hkept | hmet
    · rw [hkept]
      rcases h start y with hstart | hnext
      · rw [hstart]
        exact List.mem_cons_self
      · rw [hnext]
        exact List.mem_cons_of_mem _ List.mem_cons_self
    · exact List.mem_cons_of_mem _ (List.mem_cons_of_mem _ hmet)

/-- A choice between the number kept so far and the next double: the one that lies further out in the
order `R`, and never what is no number. -/
structure Picks (R : EReal → EReal → Prop) (f : Float → Float → Float) : Prop where
  isNumber : ∀ {x y : Float}, IsNumber x → IsNumber (f x y)
  kept : ∀ {x y : Float}, IsNumber x → R (value (f x y)) (value x)
  next : ∀ {x y : Float}, IsNumber x → IsNumber y → R (value (f x y)) (value y)

theorem picks_lesser : Picks (· ≤ ·) lesser where
  isNumber {x y} hx := by
    rw [lesser_eq hx]
    split_ifs with h
    · exact (lt_iff.mp h).1
    · exact hx
  kept {x y} hx := by
    rw [lesser_eq hx]
    split_ifs with h
    · exact (lt_iff.mp h).2.2.le
    · exact le_rfl
  next {x y} hx hy := by
    rw [lesser_eq hx]
    split_ifs with h
    · exact le_rfl
    · exact not_lt.mp fun hlt => h (lt_iff.mpr ⟨hy, hx, hlt⟩)

theorem picks_greater : Picks (· ≥ ·) greater where
  isNumber {x y} hx := by
    rw [greater_eq hx]
    split_ifs with h
    · exact (lt_iff.mp h).2.1
    · exact hx
  kept {x y} hx := by
    rw [greater_eq hx]
    split_ifs with h
    · exact (lt_iff.mp h).2.2.le
    · exact le_rfl
  next {x y} hx hy := by
    rw [greater_eq hx]
    split_ifs with h
    · exact le_rfl
    · exact not_lt.mp fun hlt => h (lt_iff.mpr ⟨hx, hy, hlt⟩)

theorem Picks.foldl {R : EReal → EReal → Prop} [Std.Refl R] [IsTrans EReal R]
    {f : Float → Float → Float} (h : Picks R f) {start : Float} (hstart : IsNumber start)
    (l : List Float) :
    IsNumber (l.foldl f start) ∧ R (value (l.foldl f start)) (value start) ∧
      ∀ x ∈ l, IsNumber x → R (value (l.foldl f start)) (value x) := by
  induction l generalizing start with
  | nil => exact ⟨hstart, Std.Refl.refl _, nofun⟩
  | cons y l ih =>
    obtain ⟨hnumber, hkept, hmem⟩ := ih (h.isNumber (y := y) hstart)
    refine ⟨hnumber, IsTrans.trans _ _ _ hkept (h.kept hstart), ?_⟩
    intro x hx hnumber'
    rcases List.mem_cons.mp hx with rfl | hx
    · exact IsTrans.trans _ _ _ hkept (h.next hstart hnumber')
    · exact hmem x hx hnumber'

section Walks

variable {R : EReal → EReal → Prop} [Std.Refl R] [IsTrans EReal R] {f : Float → Float → Float}
  {start : Float} {l l' : List Float} (h : Picks R f) (hchoice : ∀ x y, f x y = x ∨ f x y = y)
  (hstart : IsNumber start)
include h hstart

theorem Picks.foldl_rel (hx : x ∈ start :: l) (hnumber : IsNumber x) :
    R (value (l.foldl f start)) (value x) := by
  obtain ⟨-, hkept, hmet⟩ := h.foldl hstart l
  rcases List.mem_cons.mp hx with rfl | hx
  · exact hkept
  · exact hmet x hx hnumber

include hchoice

/-- From an infinity that every number lies further out than, a walk ends in a number it met. -/
theorem Picks.foldl_mem_of_isNumber (hend : ∀ a, R (value start) a → a = value start) (hne : value start ≠ 0)
    (hx : x ∈ l) (hnumber : IsNumber x) : l.foldl f start ∈ l := by
  rcases List.mem_cons.mp (foldl_mem hchoice start l) with hkept | hmet
  · -- Nothing lies further out than the start, so the number on the way is the start itself.
    have hrel := h.foldl_rel hstart (List.mem_cons_of_mem start hx) hnumber
    rw [hkept] at hrel
    rw [hkept, eq_of_value_eq hstart hnumber (hend _ hrel).symm hne]
    exact hx
  · exact hmet

/-- Without negative zeros the order of a walk does not matter, wherever what is no number stands. -/
theorem Picks.foldl_perm [Std.Antisymm R]
    (hzero : ∀ x ∈ start :: l, StandsForReal x 0 → parts x = .zero .positive) (hperm : l'.Perm l) :
    l'.foldl f start = l.foldl f start := by
  have hmem := foldl_mem hchoice start l
  have hmem' := (hperm.cons start).mem_iff.mp (foldl_mem hchoice start l')
  have hnumber := (h.foldl hstart l).1
  have hnumber' := (h.foldl hstart l').1
  have hvalue : value (l'.foldl f start) = value (l.foldl f start) := by
    apply Std.Antisymm.antisymm (r := R)
    · exact h.foldl_rel hstart ((hperm.cons start).mem_iff.mpr hmem) hnumber
    · exact h.foldl_rel hstart hmem' hnumber'
  by_cases hne : value (l'.foldl f start) = 0
  · have hreal := hzero _ hmem (standsForReal_of_value hnumber (hvalue.symm.trans hne))
    have hreal' := hzero _ hmem' (standsForReal_of_value hnumber' hne)
    exact parts_inj.mp (hreal'.trans hreal.symm)
  · exact eq_of_value_eq hnumber' hnumber hvalue hne

end Walks

theorem parts_infinity : parts infinity = .infinity .positive := by
  rfl

end Landscape.Double
