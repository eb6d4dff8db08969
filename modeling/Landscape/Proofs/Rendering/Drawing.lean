import Landscape.Renderer

namespace Landscape

theorem bind_eq_ok {ε α β : Type} {x : Except ε α} {f : α → Except ε β} {b : β}
    (h : x.bind f = .ok b) : ∃ a, x = .ok a ∧ f a = .ok b := by
  cases x with
  | error e => cases h
  | ok a => exact ⟨a, rfl, h⟩

inductive Failure.InDrawing : Failure → Prop where
  | crash (f : Fault) : InDrawing (.crash f)
  | shapesDiffer (relief mesh : Nat) : InDrawing (.problem (.shapesDiffer relief mesh))
  | notDrawn (theme : Theme) (e : DrawError) : InDrawing (.problem (.notDrawn theme e))

/-- A computation that fails as drawing does, if it fails. -/
def Draws {α : Type} (x : Except Failure α) : Prop :=
  ∀ e, x = .error e → e.InDrawing

theorem Draws.ok {α : Type} (a : α) : Draws (.ok a) := nofun

theorem Draws.bind {α β : Type} {x : Except Failure α} {f : α → Except Failure β} (hx : Draws x)
    (hf : ∀ a, Draws (f a)) : Draws (x >>= f) := by
  intro e he
  cases x with
  | error e' =>
    cases he
    exact hx e rfl
  | ok a => exact hf a e he

theorem draws_orCrash {α : Type} (x : Except Fault α) : Draws (orCrash x) := by
  intro e he
  cases x with
  | error f =>
    cases he
    exact .crash f
  | ok a => cases he

theorem draws_caption (typeface : Typeface) (text : String) (theme : Theme) :
    Draws ((typeface.set text).mapError fun e => Failure.problem (.notDrawn theme e)) := by
  intro e he
  rcases hset : typeface.set text with refusal | line
  · rw [hset] at he
    cases he
    exact .notDrawn theme refusal
  · rw [hset] at he
    cases he

theorem Chart.draws_of (typeface : Typeface) (width height : UInt32) (stride : Nat) (m : Mesh)
    (relief : Relief) (theme : Theme) :
    Draws (Chart.of typeface width height stride m relief theme) := by
  unfold Chart.of
  apply (draws_orCrash _).bind
  intro box
  apply (draws_orCrash _).bind
  intro area
  apply (draws_caption typeface title theme).bind
  intro caption
  apply (draws_orCrash _).bind
  intro below
  apply (draws_orCrash _).bind
  intro view
  apply (draws_orCrash _).bind
  intro grid
  apply (draws_orCrash _).bind
  intro frame
  apply (draws_orCrash _).bind
  intro patches
  exact Draws.ok _

namespace Renderer

variable {r : Renderer} {typeface : Typeface} {m : Mesh} {relief : Relief} {theme : Theme}

theorem draws_chart : Draws (r.chart typeface m relief theme) := by
  unfold chart
  by_cases hshape : m.size ≠ relief.size
  · rw [if_pos hshape]
    intro e he
    cases he
    exact .shapesDiffer relief.size m.size
  · rw [if_neg hshape]
    apply (draws_orCrash _).bind
    intro _
    exact Chart.draws_of typeface r.width r.height r.stride m relief theme

theorem chart_of_shapes_differ (h : relief.size ≠ m.size) :
    r.chart typeface m relief theme = .error (.problem (.shapesDiffer relief.size m.size)) :=
  if_pos h.symm

theorem checkCanvas_of_pixels (h : r.pixels < UInt32.size / 2) : r.checkCanvas = .ok () := by
  have hbytes : r.canvasBytes = r.pixels * 3 := rfl
  unfold UInt32.size at h
  rw [checkCanvas, hbytes, if_neg, if_neg, if_neg]
  · unfold UInt32.size
    omega
  · unfold UInt64.size
    omega
  · unfold UInt64.size
    omega

/-- The pixels of a canvas that can be drawn on are counted in a word of 32 bits. -/
theorem pixels_lt {chart : Chart} (h : r.chart typeface m relief theme = .ok chart) :
    r.pixels < UInt32.size := by
  unfold Renderer.chart at h
  split at h
  · cases h
  · obtain ⟨_, hcanvas, _⟩ := bind_eq_ok h
    rcases hcheck : r.checkCanvas with f | _
    · rw [hcheck] at hcanvas
      cases hcanvas
    · unfold checkCanvas at hcheck
      split at hcheck
      · cases hcheck
      · split at hcheck
        · cases hcheck
        · split at hcheck
          · cases hcheck
          · omega

theorem bytes_lt {chart : Chart} (h : r.chart typeface m relief theme = .ok chart) :
    r.width.toNat * r.height.toNat * 4 < UInt64.size := by
  have hpixels : r.width.toNat * r.height.toNat < UInt32.size := pixels_lt h
  unfold UInt64.size
  unfold UInt32.size at hpixels
  omega

end Renderer

namespace Transparency

theorem size_pushPixels (key : Color) (rgb rgba : ByteArray) (k count : Nat) :
    (pushPixels key rgb rgba k count).size = rgba.size + count * 4 := by
  induction count generalizing rgba k with
  | zero => simp [pushPixels]
  | succ count ih =>
    rw [pushPixels, ih]
    simp only [pushPixel, ByteArray.size_push]
    omega

theorem size_keyOut (rgb : ByteArray) (key : Color) : (keyOut rgb key).size = rgb.size / 3 * 4 := by
  rw [keyOut, size_pushPixels]
  exact Nat.zero_add _

end Transparency

/-- A finished picture has four bytes for each pixel. -/
theorem Renderer.size_picture (r : Renderer) (chart : Chart) (theme : Theme) :
    (r.picture chart theme).rgba.size = r.width.toNat * r.height.toNat * 4 := by
  rw [picture, Transparency.size_keyOut, (r.canvas chart theme).size_eq,
    Nat.mul_div_cancel _ (by decide)]

end Landscape
