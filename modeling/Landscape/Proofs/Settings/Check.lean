import Landscape.Proofs.Double.Reals
import Landscape.Settings

namespace Landscape
namespace Settings
open Double

structure Condition where
  Holds : Settings → Prop
  refusal : Settings → SettingsError

/-- The conditions in the order in which they are checked, where `Positive` is asked of the sizes of the
figure and of the resolution. -/
def conditions (Positive : Float → Prop) : List Condition :=
  [⟨fun s => s.real.start < s.real.stop, fun s => .notIncreasing .real s.real⟩,
    ⟨fun s => s.imaginary.start < s.imaginary.stop, fun s => .notIncreasing .imaginary s.imaginary⟩,
    ⟨fun s => 2 ≤ s.samples, fun s => .fewSamples s.samples⟩,
    ⟨fun s => 1 ≤ s.stride ∧ s.stride < s.samples, fun s => .strideOutside s.samples s.stride⟩,
    ⟨fun s => Positive s.width ∧ Positive s.height, fun s => .figureNotPositive s.width s.height⟩,
    ⟨fun s => Positive s.dpi, fun s => .dpiNotPositive s.dpi⟩]

def FirstFailing (s : Settings) (cs : List Condition) (c : Condition) : Prop :=
  ∃ before behind, cs = before ++ c :: behind ∧ (∀ d ∈ before, d.Holds s) ∧ ¬ c.Holds s

/-- The result accepts settings that meet all conditions, and else it is the refusal of the first that
they do not meet. -/
structure DecidedBy (cs : List Condition) (s : Settings) (result : Except SettingsError Unit) :
    Prop where
  accepted : result = .ok () ↔ ∀ c ∈ cs, c.Holds s
  refused : ∀ e, result = .error e ↔ ∃ c, FirstFailing s cs c ∧ c.refusal s = e

variable {s : Settings} {c d : Condition} {cs : List Condition}

theorem firstFailing_cons :
    FirstFailing s (c :: cs) d ↔ (d = c ∧ ¬ c.Holds s) ∨ (c.Holds s ∧ FirstFailing s cs d) := by
  constructor
  · rintro ⟨before, behind, heq, hbefore, hfails⟩
    cases before with
    | nil =>
      cases heq
      exact .inl ⟨rfl, hfails⟩
    | cons b before =>
      cases heq
      refine .inr ⟨hbefore c List.mem_cons_self, before, behind, rfl, ?_, hfails⟩
      exact fun d hd => hbefore d (List.mem_cons_of_mem c hd)
  · rintro (⟨rfl, hfails⟩ | ⟨hholds, before, behind, rfl, hbefore, hfails⟩)
    · exact ⟨[], cs, rfl, nofun, hfails⟩
    · refine ⟨c :: before, behind, rfl, ?_, hfails⟩
      rintro b hb
      rcases List.mem_cons.mp hb with rfl | hb
      · exact hholds
      · exact hbefore b hb

theorem decidedBy_nil (s : Settings) : DecidedBy [] s (.ok ()) := by
  constructor <;> simp [FirstFailing]

theorem DecidedBy.ite {rest : Except SettingsError Unit} {fails : Prop} [Decidable fails]
    (h : DecidedBy cs s rest) (hfails : fails ↔ ¬ c.Holds s) :
    DecidedBy (c :: cs) s (if fails then .error (c.refusal s) else rest) := by
  by_cases hholds : c.Holds s
  · rw [if_neg (by rw [hfails]; exact not_not.mpr hholds)]
    constructor
    · simp [hholds, h.accepted]
    · simp [hholds, h.refused, firstFailing_cons]
  · rw [if_pos (hfails.mpr hholds)]
    constructor
    · simp [hholds]
    · simp [hholds, firstFailing_cons]

theorem decidedBy_check (s : Settings) : DecidedBy (conditions fun x => ¬ x ≤ 0.0) s s.check := by
  unfold check conditions
  refine .ite (.ite (.ite (.ite (.ite (.ite (decidedBy_nil s) ?_) ?_) ?_) ?_) ?_) ?_
  · exact not_not.symm
  · dsimp only
    rw [not_and_or, not_not, not_not]
  · dsimp only
    omega
  · exact Nat.not_le.symm
  · exact Iff.rfl
  · exact Iff.rfl

theorem check_eq_ok_iff :
    s.check = .ok () ↔ s.real.start < s.real.stop ∧ s.imaginary.start < s.imaginary.stop ∧
      2 ≤ s.samples ∧ (1 ≤ s.stride ∧ s.stride < s.samples) ∧
      (¬ s.width ≤ 0.0 ∧ ¬ s.height ≤ 0.0) ∧ ¬ s.dpi ≤ 0.0 := by
  rw [(decidedBy_check s).accepted]
  simp [conditions]

theorem not_le_zero_iff {x : Float} : ¬ x ≤ 0.0 ↔ 0.0 < x ∨ x.isNaN = true := by
  rw [le_iff, lt_iff, ← isNaN_eq_false_iff]
  cases x.isNaN
  · simp [standsForReal_zero.isNumber]
  · simp

/-- The check is decided by the conditions, where a size or a resolution that is no number passes for a
positive one. -/
theorem first_failing_condition_refuses (s : Settings) :
    DecidedBy (conditions fun x => 0.0 < x ∨ x.isNaN = true) s s.check := by
  simp only [← not_le_zero_iff]
  exact decidedBy_check s

/-- A width that is no number is accepted, although it is not positive. -/
theorem width_not_a_number_accepted :
    let s : Settings := { width := 0.0 / 0.0 }
    s.check = .ok () ∧ ¬ DecidedBy (conditions (0.0 < ·)) s s.check := by
  intro s
  have hcheck : s.check = .ok () := check_eq_ok_iff.mpr (by decide)
  refine ⟨hcheck, ?_⟩
  intro h
  have hfigure := h.accepted.mp hcheck _ (List.getElem_mem (n := 4) (by decide))
  have hwidth : ¬ (0.0 : Float) < 0.0 / 0.0 := by decide
  exact hwidth hfigure.1

end Settings
end Landscape
