import Landscape.Renderer

namespace Landscape
namespace Theme

variable {s : String} {t : Theme}

theorem ofName?_eq_some_iff : ofName? s = some t ↔ s = toString t := by
  constructor
  · intro h
    unfold ofName? at h
    split at h <;> cases h <;> rfl
  · rintro rfl
    cases t <;> rfl

theorem parse_eq_ok_iff : parse s = .ok t ↔ s = toString t := by
  rw [← ofName?_eq_some_iff, parse]
  cases ofName? s <;> simp

theorem parse_eq_error (h : ∀ t : Theme, s ≠ toString t) : parse s = .error (.unknownTheme s) := by
  have hnone : ofName? s = none := by
    rw [Option.eq_none_iff_forall_ne_some]
    exact fun t ht => h t (ofName?_eq_some_iff.mp ht)
  rw [parse, hnone]

end Theme

theorem Problem.message_unknownTheme (s : String) :
    (Problem.unknownTheme s).message =
      "Invalid theme '" ++ s ++ "'. Must be one of: [\"light\", \"dark\"]" := by
  have hnames : "'. Must be one of: " ++ themeNames = "'. Must be one of: [\"light\", \"dark\"]" := by
    rfl
  change "Invalid theme '" ++ s ++ "'. Must be one of: " ++ themeNames = _
  rw [String.append_assoc, hnames]

/-- A text is a theme's name or it is refused; and for every renderer, mesh, relief and tree, also for such
as cannot be drawn, rendering by a text is rendering in the theme that it names, or the refusal, with the
files as they were. -/
theorem renderNamed_eq_parse_then_render :
    Theme.all.map toString = ["light", "dark"] ∧
    (∀ (s : String) (t : Theme), Theme.parse s = .ok t ↔ s = toString t) ∧
    ∀ (r : Renderer) (typeface : Typeface) (codec : Png.Codec) (m : Mesh) (relief : Relief) (tree : Node)
      (mode : String),
      (∀ t, Theme.parse mode = .ok t →
        r.renderNamed typeface m relief mode tree codec = r.render typeface m relief t tree codec) ∧
      ((∀ t : Theme, mode ≠ toString t) → ∃ p : Problem, Theme.parse mode = .error p ∧
        r.renderNamed typeface m relief mode tree codec = ⟨.error (.problem p), tree, []⟩ ∧
        p.message = "Invalid theme '" ++ mode ++ "'. Must be one of: [\"light\", \"dark\"]" ∧
        p.causes = []) := by
  refine ⟨rfl, fun _ _ => Theme.parse_eq_ok_iff, ?_⟩
  intro r typeface codec m relief tree mode
  constructor
  · intro t ht
    rw [Renderer.renderNamed, ht]
  · intro hnone
    have hparse := Theme.parse_eq_error hnone
    refine ⟨_, hparse, ?_, Problem.message_unknownTheme mode, rfl⟩
    rw [Renderer.renderNamed, hparse]

end Landscape
