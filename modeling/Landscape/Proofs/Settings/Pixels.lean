import Landscape.Proofs.Double.Words
import Landscape.Proofs.Rendering.Atomicity
import Landscape.Proofs.Rendering.OutputFolder
import Landscape.Proofs.Settings.Check

namespace Landscape
open Double Float.Model Float.Model.UnpackedFloat

theorem Renderer.notEncoded_of_sides (r : Renderer) (hwidth : r.width ≠ 0) (hheight : r.height ≠ 0)
    (typeface : Typeface) (codec : Png.LawfulCodec) (m : Mesh) (relief : Relief) (theme : Theme)
    (tree : Node) (path : String) (e : Png.EncodeError) :
    (r.render typeface m relief theme tree codec).result ≠ .error (.problem (.notEncoded path e)) := by
  intro h
  have hatomic := (r.render_ends typeface codec m relief theme tree).atomic
  rw [h] at hatomic
  rcases hatomic.2.1 with hzero | hzero
  · exact hwidth hzero
  · exact hheight hzero

theorem Renderer.size_of_make {folder : String} {s : Settings} {tree : Node} {r : Renderer}
    (h : (Renderer.make folder s tree).1 = .ok r) : r.width = s.pixelWidth ∧ r.height = s.pixelHeight := by
  obtain ⟨-, rfl⟩ := make_eq_ok_iff.mp h
  exact ⟨rfl, rfl⟩

namespace Settings

theorem standsForReal_half : StandsForReal 0.5 ((1 : ℕ) - 1 / 2) := by
  have hparts : parts 0.5 = .finite .positive (2 ^ 52) (-53) (by decide) := rfl
  have h := standsForReal_of_parts hparts
  norm_num at h ⊢
  exact h

theorem standsForReal_halfWord : StandsForReal 2147483647.5 ((2147483648 : ℕ) - 1 / 2) := by
  have hparts : parts 2147483647.5 = .finite .positive 9007199252643840 (-22) (by decide) := rfl
  have h := standsForReal_of_parts hparts
  norm_num at h ⊢
  exact h

theorem nonneg_mul {x y : Float} (hx : 0.0 < x) (hy : 0.0 < y) : 0.0 ≤ x * y := by
  obtain ⟨-, hx, hpos⟩ := lt_iff.mp hx
  obtain ⟨-, hy, hpos'⟩ := lt_iff.mp hy
  rw [standsForReal_zero.value_eq, EReal.coe_zero] at hpos hpos'
  have hproduct := isRounded_mul hx hy ⟨fun h => hpos.ne' h.1, fun h => hpos'.ne' h.2⟩
  rw [le_iff, standsForReal_zero.value_eq, EReal.coe_zero, hproduct.value_eq]
  exact ⟨standsForReal_zero.isNumber, hproduct.isNumber,
    rounded_nonneg (EReal.mul_nonneg hpos.le hpos'.le)⟩

theorem nearestWord_lt_half {x : Float} (h : x < 2147483647.5) : (nearestWord x).toNat < 2 ^ 31 := by
  by_contra hle
  have hbound := (le_nearestWord_iff (x := x) (by decide) (by decide) standsForReal_halfWord).mp
    (not_lt.mp hle)
  exact (le_iff.mp hbound).2.2.not_gt (lt_iff.mp h).2.2

/-- Accepted settings whose sizes and resolution are numbers ask for the whole numbers of pixels nearest
to the products of size and resolution. -/
theorem accepted_canvas (s : Settings) (hcheck : s.check = .ok ()) (hwidth : s.width.isNaN = false)
    (hheight : s.height.isNaN = false) (hdpi : s.dpi.isNaN = false) :
    let across := s.width * s.dpi
    let down := s.height * s.dpi
    let w := s.pixelWidth.toNat
    let h := s.pixelHeight.toNat
    (0.0 ≤ across ∧ w = wholeWord (value across) ∧ (1 ≤ w ↔ 0.5 ≤ across)) ∧
    (0.0 ≤ down ∧ h = wholeWord (value down) ∧ (1 ≤ h ↔ 0.5 ≤ down)) ∧
    (w * h * 3 < UInt64.size ∧ w * h * 4 < UInt64.size ↔ w * h < 2 ^ 62) ∧
    (across < 2147483647.5 → down < 2147483647.5 → w * h < 2 ^ 62) ∧
    (0.5 ≤ across → 0.5 ≤ down → w * h < 2 ^ 62 → ∀ folder tree r,
      (Renderer.make folder s tree).1 = .ok r →
      r.canvasBytes < UInt64.size ∧
        ∀ (typeface : Typeface) (codec : Png.LawfulCodec) m relief theme tree path e,
          (r.render typeface m relief theme tree codec).result ≠ .error (.problem (.notEncoded path e))) := by
  intro across down w h
  obtain ⟨-, -, -, -, ⟨hwidth', hheight'⟩, hdpi'⟩ := check_eq_ok_iff.mp hcheck
  have hpositive {x : Float} (hx : x.isNaN = false) (hx' : ¬ x ≤ 0.0) : 0.0 < x := by
    exact (not_le_zero_iff.mp hx').resolve_right (Bool.eq_false_iff.mp hx)
  have hacross : 0.0 ≤ across := nonneg_mul (hpositive hwidth hwidth') (hpositive hdpi hdpi')
  have hdown : 0.0 ≤ down := nonneg_mul (hpositive hheight hheight') (hpositive hdpi hdpi')
  have hw : 1 ≤ w ↔ 0.5 ≤ across :=
    le_nearestWord_iff Nat.one_ne_zero (by decide) standsForReal_half
  have hh : 1 ≤ h ↔ 0.5 ≤ down :=
    le_nearestWord_iff Nat.one_ne_zero (by decide) standsForReal_half
  refine ⟨⟨hacross, toNat_nearestWord _, hw⟩, ⟨hdown, toNat_nearestWord _, hh⟩, ?_, ?_, ?_⟩
  · unfold UInt64.size
    omega
  · intro hlt hlt'
    calc
      w * h < 2 ^ 31 * 2 ^ 31 := Nat.mul_lt_mul'' (nearestWord_lt_half hlt) (nearestWord_lt_half hlt')
      _ = 2 ^ 62 := by norm_num
  · intro hhalf hhalf' hbytes folder tree r hmake
    obtain ⟨hwidth, hheight⟩ := Renderer.size_of_make hmake
    have hside {n : UInt32} (hn : 1 ≤ n.toNat) : n ≠ 0 := by
      rintro rfl
      exact absurd hn (by decide)
    constructor
    · rw [Renderer.canvasBytes, Renderer.pixels, hwidth, hheight]
      change w * h * 3 < 2 ^ 64
      omega
    · apply Renderer.notEncoded_of_sides
      · rw [hwidth]
        exact hside (hw.mpr hhalf)
      · rw [hheight]
        exact hside (hh.mpr hhalf')

/-- The default settings ask for seven hundred by six hundred pixels. -/
theorem accepted_canvas_default :
    let s : Settings := {}
    s.check = .ok () ∧ s.width.isNaN = false ∧ s.height.isNaN = false ∧ s.dpi.isNaN = false ∧
      1 ≤ s.pixelWidth.toNat ∧ s.pixelWidth.toNat * s.pixelHeight.toNat < 2 ^ 62 := by
  intro s
  have hcheck : s.check = .ok () := check_eq_ok_iff.mpr (by decide)
  have hwidth : s.width.isNaN = false := by decide
  have hheight : s.height.isNaN = false := by decide
  have hdpi : s.dpi.isNaN = false := by decide
  obtain ⟨⟨-, -, hw⟩, -, -, hbytes, -⟩ := accepted_canvas s hcheck hwidth hheight hdpi
  exact ⟨hcheck, hwidth, hheight, hdpi, hw.mpr (by decide), hbytes (by decide) (by decide)⟩

/-- Settings are accepted with a figure so small that it has no pixels, and with one so large that its
bytes cannot be counted. -/
theorem accepted_without_canvas :
    let small : Settings := { width := 0.001 }
    let large : Settings := { width := 1e9, height := 1e9 }
    (small.check = .ok () ∧ small.pixelWidth = 0) ∧
      large.check = .ok () ∧
        UInt64.size ≤ large.pixelWidth.toNat * large.pixelHeight.toNat * 3 := by
  intro small large
  refine ⟨⟨check_eq_ok_iff.mpr (by decide), by decide⟩, check_eq_ok_iff.mpr (by decide), ?_⟩
  decide

end Settings
end Landscape
