import Landscape.Proofs.Colors.Gradients
import Landscape.Proofs.Relief.Levels
import Landscape.Proofs.Rendering.Keying
import Landscape.Proofs.Surface.Extents

namespace Landscape
open Double

theorem Theme.sized_gradient (theme : Theme) : theme.gradient.Sized := by
  cases theme <;> exact ⟨by decide, by decide⟩

/-- The blue of both gradients stays away from the least and from the largest byte. -/
theorem Theme.within_gradient (theme : Theme) : theme.gradient.Within .blue 29 168 := by
  cases theme <;> exact ⟨by decide, by decide, by decide, by decide⟩

theorem Theme.color_ne_background (theme : Theme) {t : Float32} {a : ℝ}
    (ht : Single.StandsForReal t a) : theme.gradient.color t ≠ theme.background := by
  intro h
  obtain ⟨hlower, hupper⟩ := Gradient.color_mem theme.within_gradient theme.sized_gradient ht
  rw [h] at hlower hupper
  revert hlower hupper
  cases theme <;> decide

theorem Transparency.get!_alpha_of_ne {rgb : ByteArray} {key : Color} {k : ℕ} (hk : k < rgb.size / 3)
    (h : pixelAt rgb k ≠ key) : (keyOut rgb key).get! (4 * k + 3) = 255 := by
  rw [get!_keyOut rgb key hk (by decide)]
  exact if_neg h

theorem exists_standsForReal_toSingle {x : Float} (hlower : 0.0 ≤ x) (hupper : x ≤ 1.0) :
    ∃ a, Single.StandsForReal (toSingle x) a := by
  obtain ⟨-, hnumber, hlower⟩ := le_iff.mp hlower
  obtain ⟨-, -, hupper⟩ := le_iff.mp hupper
  rw [standsForReal_zero.value_eq] at hlower
  rw [standsForReal_one.value_eq] at hupper
  obtain ⟨a, ha⟩ := standsForReal_of_between hnumber hlower hupper
  rw [ha.value_eq, EReal.coe_le_coe_iff] at hlower hupper
  refine ⟨_, Single.standsForReal_toSingle ha ?_⟩
  rw [abs_of_nonneg hlower]
  exact hupper.trans (by norm_num)

/-- Over a mesh and a relief of one shape whose heights are all finite: the level of every patch is a number
from zero to one, and in either theme its colour is not the background, so a pixel that has it is opaque once
the background is keyed out. -/
theorem patches_not_keyed_out (m source : Mesh) (stride : ℕ) (hshape : source.size = m.size)
    (hstride : 1 ≤ stride)
    (hfinite : ∀ i j height, (Relief.ofMesh source).heightAt i j = .ok height →
      height.isFinite = true) :
    let r := Relief.ofMesh source
    (1 ≤ m.size → ∃ ps, patches m r stride = .ok ps) ∧
    ∀ ps, patches m r stride = .ok ps → ∀ p ∈ ps,
      (0.0 ≤ r.level p.height ∧ r.level p.height ≤ 1.0) ∧
      ∀ theme : Theme, p.color theme r ≠ theme.background ∧
        ∀ (rgb : ByteArray) (k : ℕ), k < rgb.size / 3 →
          Transparency.pixelAt rgb k = p.color theme r →
          (Transparency.keyOut rgb theme.background).get! (4 * k + 3) = 255 := by
  intro r
  constructor
  · intro hsize
    obtain ⟨ps, hps, -⟩ := exists_spanning_patches (r := r) hsize hshape hstride
    exact ⟨ps, hps⟩
  · intro ps hps p hp
    obtain ⟨ps', hps', hspans⟩ :=
      exists_spanning_patches (r := r) (one_le_size_of_patches hps) hshape hstride
    obtain rfl : ps' = ps := Except.ok.inj (hps'.symm.trans hps)
    obtain ⟨b, hb⟩ := hspans p hp
    have hentries := Relief.isFinite_of_mem hfinite
    have hmem {v : Vertex} (hv : v ∈ p.corners) : v.height ∈ r.heights.entries := by
      obtain ⟨i, j, hlies⟩ := hb.liesAt hv
      exact hlies.height_mem
    have hheight : IsNumber p.height := Patch.isNumber_height fun v hv => hentries _ (hmem hv)
    have hlevel : 0.0 ≤ r.level p.height ∧ r.level p.height ≤ 1.0 :=
      Relief.level_mem hentries (hmem List.mem_cons_self) hheight
    obtain ⟨a, ha⟩ := exists_standsForReal_toSingle hlevel.1 hlevel.2
    refine ⟨hlevel, fun theme => ?_⟩
    have hne : p.color theme r ≠ theme.background := theme.color_ne_background ha
    refine ⟨hne, ?_⟩
    intro rgb k hk hpixel
    exact Transparency.get!_alpha_of_ne hk (hpixel ▸ hne)

/-- A patch between heights of which two already sum to infinity. -/
theorem patches_not_keyed_out_overflow :
    let m := Mesh.ofSpans ⟨0.0, 1.3e154⟩ ⟨0.0, 0.0⟩ 2
    let r := Relief.ofMesh m
    (m.size = m.size ∧ 1 ≤ 1 ∧
      ∀ i j height, r.heightAt i j = .ok height → height.isFinite = true) ∧
    (∃ height, r.heightAt 0 1 = .ok height ∧ (height + height).isFinite = false) ∧
    ∃ ps, patches m r 1 = .ok ps ∧ ∀ p ∈ ps,
      (0.0 ≤ r.level p.height ∧ r.level p.height ≤ 1.0) ∧
      ∀ theme : Theme, p.color theme r ≠ theme.background := by
  intro m r
  have hheights : ∀ i j : Fin 2, (modulus ⟨m.real.get j, m.imaginary.get i⟩).isFinite = true := by
    decide +kernel
  have hfinite : ∀ i j height, r.heightAt i j = .ok height → height.isFinite = true := by
    intro i j height h
    by_cases hinside : i < 2 ∧ j < 2
    · have hentry : r.heightAt i j = _ := Relief.heightAt_eq_modulus hinside.1 hinside.2
      rw [Except.ok.inj (h.symm.trans hentry)]
      exact hheights ⟨i, hinside.1⟩ ⟨j, hinside.2⟩
    · have hentry : r.heightAt i j = .error (.beyondTable i j 2) := dif_neg hinside
      cases h.symm.trans hentry
  obtain ⟨hpatches, hcolors⟩ := patches_not_keyed_out m m 1 rfl le_rfl hfinite
  obtain ⟨ps, hps⟩ := hpatches (by decide)
  refine ⟨⟨rfl, le_rfl, hfinite⟩, ⟨_, Relief.heightAt_eq_modulus (by decide) (by decide), ?_⟩,
    ps, hps, ?_⟩
  · decide +kernel
  · intro p hp
    obtain ⟨hlevel, htheme⟩ := hcolors ps hps p hp
    exact ⟨hlevel, fun theme => (htheme theme).1⟩

end Landscape
