import Landscape.Proofs.Rendering.Atomicity
import Landscape.Proofs.Rendering.Keying

namespace Landscape

namespace Png.Image

def colorAt (i : Image) (x y : ℕ) : Color :=
  let k := 4 * (y * i.width.toNat + x)
  ⟨i.rgba.get! k, i.rgba.get! (k + 1), i.rgba.get! (k + 2)⟩

def alphaAt (i : Image) (x y : ℕ) : UInt8 :=
  i.rgba.get! (4 * (y * i.width.toNat + x) + 3)

end Png.Image

/-- A byte laid over another one at an alpha, rounded to the nearest. -/
def overByte (paint under alpha : UInt8) : UInt8 :=
  UInt8.ofNat ((paint.toNat * alpha.toNat + under.toNat * (255 - alpha.toNat) + 127) / 255)

attribute [ext] Color

def Color.laidOver (paint under : Color) (alpha : UInt8) : Color :=
  ⟨overByte paint.red under.red alpha, overByte paint.green under.green alpha,
    overByte paint.blue under.blue alpha⟩

theorem overByte_transparent (paint under : UInt8) : overByte paint under 0 = under := by
  apply UInt8.toNat_inj.mp
  have hunder := under.toNat_lt
  change (paint.toNat * 0 + under.toNat * 255 + 127) / 255 % 256 = under.toNat
  omega

theorem overByte_opaque (paint under : UInt8) : overByte paint under 255 = paint := by
  apply UInt8.toNat_inj.mp
  have hpaint := paint.toNat_lt
  change (paint.toNat * 255 + under.toNat * 0 + 127) / 255 % 256 = paint.toNat
  omega

/-- A colour keyed out and laid over the key is the colour. -/
theorem Color.laidOver_alpha (key color : Color) :
    color.laidOver key (Transparency.alpha key color) = color := by
  by_cases h : color = key
  · rw [Transparency.alpha, if_pos h, laidOver, overByte_transparent, overByte_transparent,
      overByte_transparent, h]
  · rw [Transparency.alpha, if_neg h, laidOver, overByte_opaque, overByte_opaque, overByte_opaque]

namespace Renderer

theorem colorAt_picture (r : Renderer) (chart : Chart) (theme : Theme) {x y : ℕ}
    (hx : x < r.width.toNat) (hy : y < r.height.toNat) :
    (r.picture chart theme).colorAt x y = (r.canvas chart theme).colorAt x y ∧
      (r.picture chart theme).alphaAt x y =
        Transparency.alpha theme.background ((r.canvas chart theme).colorAt x y) := by
  let k := y * r.width.toNat + x
  let rgb := (r.canvas chart theme).bytes
  have hk : k < rgb.size / 3 := by
    rw [(r.canvas chart theme).size_eq, Nat.mul_div_cancel _ (by decide)]
    have hrow : y * r.width.toNat + r.width.toNat ≤ r.width.toNat * r.height.toNat := by
      rw [← Nat.succ_mul, Nat.mul_comm r.width.toNat]
      exact Nat.mul_le_mul_right _ hy
    omega
  have hpixel : Transparency.pixelAt rgb k = (r.canvas chart theme).colorAt x y := by
    unfold Transparency.pixelAt Canvas.colorAt Canvas.offset
    rw [Nat.mul_comm 3]
  have hbyte {c : ℕ} (hc : c < 4) := Transparency.get!_keyOut rgb theme.background hk hc
  rw [hpixel] at hbyte
  constructor
  · apply Color.ext
    · exact hbyte (c := 0) (by decide)
    · exact hbyte (c := 1) (by decide)
    · exact hbyte (c := 2) (by decide)
  · exact hbyte (c := 3) (by decide)

theorem Ends.error_cases {r : Renderer} {typeface : Typeface} {codec : Png.LawfulCodec} {m : Mesh}
    {relief : Relief} {theme : Theme} {tree after : Node} {e : Failure}
    (h : r.Ends typeface codec m relief theme tree (.error e) after) :
    e.InDrawing ∨ (∃ path error, e = .problem (.fileNotCreated path error)) ∨
      ∃ path error, e = .problem (.notEncoded path error) := by
  cases h with
  | notFinished hchart => exact .inl (draws_chart _ hchart)
  | notCreated => exact .inr (.inl ⟨_, _, rfl⟩)
  | notEncoded => exact .inr (.inr ⟨_, _, rfl⟩)

theorem read?_put {text : String} {tree : Node} {way : List String}
    (h : tree.wayToFile text = .ok way) (bytes : ByteArray) :
    (tree.put way (.file bytes)).read? text = some bytes := by
  obtain ⟨turns, hpath, hturns, hroom⟩ := Node.wayToFile_eq_ok_iff.mp h
  have hstand := Node.standIn_eq_ok_iff.mpr fun turn hturn =>
    ((Node.sameFolders_put hroom bytes).leads_iff turn).mpr (hturns turn hturn)
  have hentry := Node.entryAt?_put_self hroom bytes
  obtain ⟨node, hfind, hnode⟩ := Option.map_eq_some_iff.mp hentry
  cases node with
  | folder entries => cases hnode
  | file old =>
    cases hnode
    simp only [Node.read?, hpath, hstand, hfind]

/-- The canvas survives the way to its file, whatever the renderer and whatever is drawn. A finished
picture fits its buffer exactly, so that no render fails on its size; and what a successful render has
written decodes to a picture that shows at every pixel the colour that was drawn, transparent where that is
the background and opaque elsewhere, and laid over the background the colour again. -/
theorem picture_shows_canvas (r : Renderer) (typeface : Typeface) (codec : Png.LawfulCodec) (m : Mesh)
    (relief : Relief) (theme : Theme) (tree : Node) :
    let outcome := r.render typeface m relief theme tree codec
    let size := r.width.toNat * r.height.toNat * 4
    (∀ chart, r.chart typeface m relief theme = .ok chart →
      (r.picture chart theme).rgba.size = size ∧ size < UInt64.size) ∧
    outcome.result ≠ .error (.problem .sizeTooLarge) ∧
    (∀ expected got, outcome.result ≠ .error (.problem (.bufferMismatch expected got))) ∧
    ∀ path, outcome.result = .ok path → ∃ chart file image,
      r.chart typeface m relief theme = .ok chart ∧ outcome.tree.read? path = some file ∧
      codec.decode? file = some image ∧
      image.width = r.width ∧ image.height = r.height ∧ image.rgba.size = size ∧
      ∀ x < r.width.toNat, ∀ y < r.height.toNat,
        let drawn := (r.canvas chart theme).colorAt x y
        image.colorAt x y = drawn ∧
        image.alphaAt x y = (if drawn = theme.background then 0 else 255) ∧
        (image.colorAt x y).laidOver theme.background (image.alphaAt x y) = drawn := by
  intro outcome size
  have hends : r.Ends typeface codec m relief theme tree outcome.result outcome.tree :=
    r.render_ends typeface codec m relief theme tree
  refine ⟨?_, ?_, ?_, ?_⟩
  · intro chart hchart
    refine ⟨r.size_picture chart theme, ?_⟩
    have hpixels : r.width.toNat * r.height.toNat < UInt32.size := pixels_lt hchart
    change r.width.toNat * r.height.toNat * 4 < 2 ^ 64
    unfold UInt32.size at hpixels
    omega
  · intro h
    rw [h] at hends
    rcases hends.error_cases with h | ⟨_, _, h⟩ | ⟨_, _, h⟩ <;> cases h
  · intro expected got h
    rw [h] at hends
    rcases hends.error_cases with h | ⟨_, _, h⟩ | ⟨_, _, h⟩ <;> cases h
  · intro path h
    rw [h] at hends
    generalize outcome.tree = after at hends
    cases hends with
    | @written chart way file hchart hway hencode =>
      have hsize := r.size_picture chart theme
      refine ⟨chart, file, r.picture chart theme, hchart, read?_put hway file,
        codec.decode?_of_encode hencode hsize, rfl, rfl, hsize, ?_⟩
      intro x hx y hy drawn
      obtain ⟨hcolor, halpha⟩ := colorAt_picture r chart theme hx hy
      rw [hcolor, halpha]
      exact ⟨rfl, rfl, Color.laidOver_alpha _ _⟩

end Renderer

end Landscape
