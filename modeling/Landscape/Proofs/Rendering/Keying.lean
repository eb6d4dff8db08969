import Landscape.Proofs.Png.Bytes
import Landscape.Color

namespace Landscape.Transparency

def fourBytes (key pixel : Color) : ByteArray :=
  pushPixel key ByteArray.empty pixel

theorem pushPixel_eq_append (key : Color) (rgba : ByteArray) (pixel : Color) :
    pushPixel key rgba pixel = rgba ++ fourBytes key pixel := by
  simp only [fourBytes, pushPixel, ← ByteArray.append_toByteArray_singleton, ByteArray.append_assoc,
    ByteArray.empty_append]

theorem pushPixels_eq_append (key : Color) (rgb rgba : ByteArray) (k count : ℕ) :
    pushPixels key rgb rgba k count = rgba ++ pushPixels key rgb ByteArray.empty k count := by
  induction count generalizing rgba k with
  | zero => exact ByteArray.append_empty.symm
  | succ count ih =>
    rw [pushPixels, ih, pushPixels, ih (pushPixel _ _ _), pushPixel_eq_append, fourBytes,
      ByteArray.append_assoc]

theorem pushPixels_succ (key : Color) (rgb : ByteArray) (k count : ℕ) :
    pushPixels key rgb ByteArray.empty k (count + 1) =
      fourBytes key (pixelAt rgb k) ++ pushPixels key rgb ByteArray.empty (k + 1) count := by
  rw [pushPixels, pushPixels_eq_append]
  rfl

theorem get!_pushPixels (key : Color) (rgb : ByteArray) {k count j c : ℕ} (hj : j < count) (hc : c < 4) :
    (pushPixels key rgb ByteArray.empty k count).get! (4 * j + c) =
      (fourBytes key (pixelAt rgb (k + j))).get! c := by
  have hsize (pixel : Color) : (fourBytes key pixel).size = 4 := rfl
  induction count generalizing k j with
  | zero => cases hj
  | succ count ih =>
    rw [pushPixels_succ]
    cases j with
    | zero =>
      rw [Nat.mul_zero, Nat.zero_add, Png.get!_append_left (by rw [hsize]; exact hc)]
      rfl
    | succ j =>
      have hplace : 4 * (j + 1) + c = (fourBytes key (pixelAt rgb k)).size + (4 * j + c) := by
        rw [hsize]
        omega
      rw [hplace, Png.get!_append_right, ih (by omega), Nat.add_right_comm]
      rfl

theorem get!_keyOut (rgb : ByteArray) (key : Color) {k c : ℕ} (hk : k < rgb.size / 3) (hc : c < 4) :
    (keyOut rgb key).get! (4 * k + c) = (fourBytes key (pixelAt rgb k)).get! c := by
  have h := get!_pushPixels key rgb (k := 0) hk hc
  rw [Nat.zero_add] at h
  exact h

end Landscape.Transparency
