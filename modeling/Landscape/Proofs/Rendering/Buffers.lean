import Landscape.Proofs.Rendering.Drawing
import Landscape.Proofs.Rendering.Keying
import Mathlib.Data.Set.Function

namespace Landscape.Transparency

def octets (buffer : ByteArray) : List UInt8 :=
  buffer.data.toList

def pixels : List UInt8 → List Color
  | red :: green :: blue :: rest => ⟨red, green, blue⟩ :: pixels rest
  | _ => []

def threeBytes (pixel : Color) : List UInt8 :=
  [pixel.red, pixel.green, pixel.blue]

def wholePixels (rgb : ByteArray) : List UInt8 :=
  (octets rgb).take (3 * (rgb.size / 3))

def dropFourths : List UInt8 → List UInt8
  | first :: second :: third :: _ :: rest => first :: second :: third :: dropFourths rest
  | rest => rest

/-- Pixels of four bytes as pixels of three, where the key stands for every transparent one. -/
def fillIn (key : Color) : List UInt8 → List UInt8
  | red :: green :: blue :: alpha :: rest =>
    threeBytes (if alpha = 0 then key else ⟨red, green, blue⟩) ++ fillIn key rest
  | _ => []

section Octets

variable {a b : ByteArray}

theorem octets_inj : octets a = octets b ↔ a = b := by
  rw [octets, octets, Array.toList_inj, ← ByteArray.ext_iff]

theorem octets_append (a b : ByteArray) : octets (a ++ b) = octets a ++ octets b := by
  rw [octets, ByteArray.data_append, Array.toList_append]
  rfl

theorem length_octets (a : ByteArray) : (octets a).length = a.size := rfl

theorem octets_drop {i : ℕ} (h : i < a.size) :
    (octets a).drop i = a.get! i :: (octets a).drop (i + 1) := by
  have hget : (octets a)[i]? = some (a.get! i) := by
    change a.data.toList[i]? = some a.data[i]!
    rw [Array.getElem?_toList, getElem!_pos a.data i h, getElem?_pos a.data i h]
  rw [List.drop_eq_getElem?_toList_append, hget]
  rfl

end Octets

section Pixels

variable {bytes : List UInt8}

theorem length_lt_of_no_pixel
    (h : ∀ red green blue rest, bytes = red :: green :: blue :: rest → False) : bytes.length < 3 := by
  match bytes, h with
  | [], _ | [_], _ | [_, _], _ => simp
  | red :: green :: blue :: rest, h => exact (h red green blue rest rfl).elim

theorem pixels_of_length_lt (h : bytes.length < 3) : pixels bytes = [] := by
  match bytes, h with
  | [], _ | [_], _ | [_, _], _ => rfl

theorem flatMap_threeBytes_pixels (bytes : List UInt8) :
    (pixels bytes).flatMap threeBytes = bytes.take (3 * (bytes.length / 3)) := by
  induction bytes using pixels.induct with
  | case1 red green blue rest ih =>
    have hlength : 3 * ((red :: green :: blue :: rest).length / 3) = 3 * (rest.length / 3) + 3 := by
      simp only [List.length_cons]
      omega
    rw [pixels, List.flatMap_cons, ih, hlength]
    rfl
  | case2 bytes hbytes =>
    have hlength := length_lt_of_no_pixel hbytes
    rw [pixels_of_length_lt hlength, Nat.div_eq_of_lt hlength]
    rfl

theorem pixels_flatMap_threeBytes (ps : List Color) : pixels (ps.flatMap threeBytes) = ps := by
  induction ps with
  | nil => rfl
  | cons pixel ps ih => exact congrArg (pixel :: ·) ih

theorem pixels_append (h : 3 ∣ bytes.length) (behind : List UInt8) :
    pixels (bytes ++ behind) = pixels bytes ++ pixels behind := by
  induction bytes using pixels.induct with
  | case1 red green blue rest ih =>
    have hrest : 3 ∣ rest.length := by
      simp only [List.length_cons] at h
      omega
    simp only [List.cons_append, pixels, ih hrest]
  | case2 bytes hbytes =>
    have hlength := length_lt_of_no_pixel hbytes
    have hnil : bytes = [] := List.length_eq_zero_iff.mp (by omega)
    rw [hnil]
    rfl

theorem pixels_drop {rgb : ByteArray} {k : ℕ} (h : k < rgb.size / 3) :
    pixels ((octets rgb).drop (3 * k)) = pixelAt rgb k :: pixels ((octets rgb).drop (3 * (k + 1))) := by
  rw [octets_drop (by omega), octets_drop (by omega), octets_drop (by omega), pixels]
  rfl

end Pixels

section WholePixels

theorem wholePixels_eq (rgb : ByteArray) : wholePixels rgb = (pixels (octets rgb)).flatMap threeBytes :=
  (flatMap_threeBytes_pixels _).symm

theorem wholePixels_of_size {rgb : ByteArray} (h : 3 ∣ rgb.size) : wholePixels rgb = octets rgb :=
  List.take_of_length_le (by rw [length_octets]; omega)

/-- No longer front of the buffer has a length that is divisible by three. -/
theorem wholePixels_longest (rgb : ByteArray) :
    wholePixels rgb <+: octets rgb ∧ 3 ∣ (wholePixels rgb).length ∧
      ∀ front, front <+: octets rgb → 3 ∣ front.length → front <+: wholePixels rgb := by
  have hlength : (wholePixels rgb).length = 3 * (rgb.size / 3) := by
    rw [wholePixels, List.length_take, length_octets]
    omega
  refine ⟨List.take_prefix _ _, ⟨_, hlength⟩, ?_⟩
  intro front hfront hthree
  have hle : front.length ≤ rgb.size := hfront.length_le
  apply List.prefix_of_prefix_length_le hfront (List.take_prefix _ _)
  change front.length ≤ (wholePixels rgb).length
  omega

end WholePixels

section Pixelwise

variable {key : Color}

theorem alpha_eq_zero_iff {pixel : Color} : alpha key pixel = 0 ↔ pixel = key := by
  unfold alpha
  split
  · next h => exact iff_of_true rfl h
  · next h => exact iff_of_false (by decide) h

theorem octets_pushPixels {rgb : ByteArray} {k count : ℕ} (h : k + count = rgb.size / 3) :
    octets (pushPixels key rgb ByteArray.empty k count) =
      (pixels ((octets rgb).drop (3 * k))).flatMap fun pixel => octets (fourBytes key pixel) := by
  induction count generalizing k with
  | zero =>
    have hshort : ((octets rgb).drop (3 * k)).length < 3 := by
      rw [List.length_drop, length_octets]
      omega
    rw [pixels_of_length_lt hshort]
    rfl
  | succ count ih =>
    have hk : k < rgb.size / 3 := by omega
    rw [pushPixels_succ, octets_append, ih (by omega), pixels_drop hk, List.flatMap_cons]

theorem octets_keyOut (rgb : ByteArray) (key : Color) :
    octets (keyOut rgb key) =
      (pixels (octets rgb)).flatMap fun pixel => octets (fourBytes key pixel) :=
  octets_pushPixels (Nat.zero_add _)

theorem dropFourths_keyOut (rgb : ByteArray) : dropFourths (octets (keyOut rgb key)) = wholePixels rgb := by
  rw [octets_keyOut, wholePixels_eq]
  induction pixels (octets rgb) with
  | nil => rfl
  | cons pixel ps ih => exact congrArg (threeBytes pixel ++ ·) ih

theorem fillIn_keyOut (rgb : ByteArray) : fillIn key (octets (keyOut rgb key)) = wholePixels rgb := by
  have hfill (pixel : Color) : (if alpha key pixel = 0 then key else pixel) = pixel := by
    by_cases h : pixel = key
    · rw [if_pos (alpha_eq_zero_iff.mpr h), h]
    · rw [if_neg (mt alpha_eq_zero_iff.mp h)]
  rw [octets_keyOut, wholePixels_eq]
  induction pixels (octets rgb) with
  | nil => rfl
  | cons pixel ps ih => exact congrArg₂ (threeBytes · ++ ·) (hfill pixel) ih

theorem keyOut_eq_iff {rgb other : ByteArray} :
    keyOut rgb key = keyOut other key ↔ wholePixels rgb = wholePixels other := by
  constructor
  · intro h
    have hfourths := congrArg (fun rgba => dropFourths (octets rgba)) h
    simpa only [dropFourths_keyOut] using hfourths
  · intro h
    have hpixels : pixels (octets rgb) = pixels (octets other) := by
      rw [← pixels_flatMap_threeBytes (pixels (octets rgb)), ← wholePixels_eq, h, wholePixels_eq,
        pixels_flatMap_threeBytes]
    apply octets_inj.mp
    rw [octets_keyOut, octets_keyOut, hpixels]

theorem keyOut_append {x : ByteArray} (h : 3 ∣ x.size) (y : ByteArray) (key : Color) :
    keyOut (x ++ y) key = keyOut x key ++ keyOut y key := by
  have h' : 3 ∣ (octets x).length := h
  apply octets_inj.mp
  rw [octets_append, octets_keyOut, octets_append, pixels_append h', List.flatMap_append,
    ← octets_keyOut, ← octets_keyOut]

/-- The four bytes of pixel `k` stand at `4 * k`. -/
theorem get!_keyOut_eq {rgb : ByteArray} {k : ℕ} (hk : k < rgb.size / 3) (key : Color) :
    (∀ c < 3, (keyOut rgb key).get! (4 * k + c) = rgb.get! (3 * k + c)) ∧
      (keyOut rgb key).get! (4 * k + 3) = alpha key (pixelAt rgb k) := by
  constructor
  · intro c hc
    rw [get!_keyOut rgb key hk (by omega)]
    match c, hc with
    | 0, _ | 1, _ | 2, _ => rfl
  · rw [get!_keyOut rgb key hk (by decide)]
    rfl

end Pixelwise

/-- Keying out, byte by byte, and what can be had back from its result. -/
theorem keyOut_by_pixels (key : Color) :
    (∀ rgb : ByteArray,
      (keyOut rgb key).size = 4 * (rgb.size / 3) ∧
      (∀ k < rgb.size / 3,
        (∀ c < 3, (keyOut rgb key).get! (4 * k + c) = rgb.get! (3 * k + c)) ∧
        (keyOut rgb key).get! (4 * k + 3) =
          if rgb.get! (3 * k) = key.red ∧ rgb.get! (3 * k + 1) = key.green ∧
            rgb.get! (3 * k + 2) = key.blue then 0 else 255) ∧
      (wholePixels rgb <+: octets rgb ∧ 3 ∣ (wholePixels rgb).length ∧
        ∀ front, front <+: octets rgb → 3 ∣ front.length → front <+: wholePixels rgb) ∧
      dropFourths (octets (keyOut rgb key)) = wholePixels rgb ∧
      fillIn key (octets (keyOut rgb key)) = wholePixels rgb ∧
      (∀ other, keyOut rgb key = keyOut other key ↔ wholePixels rgb = wholePixels other)) ∧
    Set.InjOn (keyOut · key) {rgb | 3 ∣ rgb.size} ∧
    (∀ x y : ByteArray, 3 ∣ x.size → keyOut (x ++ y) key = keyOut x key ++ keyOut y key) ∧
    ∀ rgb rest : ByteArray, 3 ∣ rgb.size → rest.size < 3 → keyOut (rgb ++ rest) key = keyOut rgb key := by
  refine ⟨fun rgb => ⟨?_, ?_, wholePixels_longest rgb, dropFourths_keyOut rgb, fillIn_keyOut rgb,
    fun other => keyOut_eq_iff⟩, ?_, fun x y h => keyOut_append h y key, ?_⟩
  · rw [size_keyOut, Nat.mul_comm]
  · intro k hk
    obtain ⟨hbytes, halpha⟩ := get!_keyOut_eq hk key
    refine ⟨hbytes, ?_⟩
    obtain ⟨red, green, blue⟩ := key
    rw [halpha, alpha]
    simp only [pixelAt, Color.mk.injEq]
  · intro rgb hrgb other hother h
    rw [← octets_inj, ← wholePixels_of_size hrgb, ← wholePixels_of_size hother]
    exact keyOut_eq_iff.mp h
  · intro rgb rest hrgb hrest
    have hshort : (octets rest).length < 3 := hrest
    have hnone : keyOut rest key = ByteArray.empty := by
      apply octets_inj.mp
      rw [octets_keyOut, pixels_of_length_lt hshort]
      rfl
    rw [keyOut_append hrgb, hnone, ByteArray.append_empty]

/-- A key that stands across two pixels is not one of them. -/
example : octets (keyOut ⟨#[1, 2, 3, 1, 2, 3, 1]⟩ ⟨2, 3, 1⟩) = [1, 2, 3, 255, 1, 2, 3, 255] := by decide

end Landscape.Transparency
