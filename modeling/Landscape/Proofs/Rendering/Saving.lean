import Landscape.Proofs.Rendering.Pictures
import Mathlib

namespace Landscape

section Fits

variable {path : String} {picture : Png.Image} {tree : Node} {codec : Png.LawfulCodec} {way : List String}
  (hsize : picture.rgba.size = picture.width.toNat * picture.height.toNat * 4)
  (hfits : picture.width.toNat * picture.height.toNat * 4 < UInt64.size)
include hsize hfits

theorem savePicture_of_no_way {e : FileError} (hway : tree.wayToFile path = .error e) :
    savePicture path picture tree codec = (.error (.problem (.fileNotCreated path e)), tree) := by
  rw [savePicture_of_size hsize hfits, hway]

/-- Once a file can be created, nothing but the file changes. -/
theorem exists_savePicture_eq_put (hway : tree.wayToFile path = .ok way) :
    ∃ bytes, (savePicture path picture tree codec).2 = tree.put way (.file bytes) := by
  rw [savePicture_of_size hsize hfits, hway]
  dsimp only
  cases codec.encode picture with
  | error e => exact ⟨_, rfl⟩
  | ok file => exact ⟨_, rfl⟩

theorem savePicture_of_no_side (hway : tree.wayToFile path = .ok way)
    (hside : picture.width = 0 ∨ picture.height = 0) :
    ∃ e, savePicture path picture tree codec =
      (.error (.problem (.notEncoded path e)), tree.put way (.file ByteArray.empty)) := by
  obtain ⟨e, hencode⟩ := codec.exists_encode_eq_error hsize hside
  refine ⟨e, ?_⟩
  rw [savePicture_of_size hsize hfits, hway]
  dsimp only
  rw [hencode]

theorem savePicture_of_sides (hway : tree.wayToFile path = .ok way) (hwidth : picture.width ≠ 0)
    (hheight : picture.height ≠ 0) :
    ∃ file, savePicture path picture tree codec = (.ok (), tree.put way (.file file)) ∧
      codec.decode? file = some picture := by
  obtain ⟨file, hencode⟩ := (codec.exists_encode_iff hsize).mpr ⟨hwidth, hheight⟩
  refine ⟨file, ?_, codec.decode?_of_encode hencode hsize⟩
  rw [savePicture_of_size hsize hfits, hway]
  dsimp only
  rw [hencode]

end Fits

/-- How saving ends, for every path, picture and tree. A size with `2 ^ 62` pixels or more is refused, then
a buffer of another length than the size asks for, then a place where no file can be created, and each time
the files are as they were. After that only the entry at the path changes: without one of its sides a picture
leaves an empty file there, and with both a file that decodes to the picture. -/
theorem savePicture_outcome (codec : Png.LawfulCodec) (path : String) (picture : Png.Image) (tree : Node) :
    let pixels := picture.width.toNat * picture.height.toNat
    let expected := pixels * 4
    let got := picture.rgba.size
    let saved := savePicture path picture tree codec
    pixels < UInt64.size ∧ (UInt64.size ≤ expected ↔ 2 ^ 62 ≤ pixels) ∧
    (UInt64.size ≤ expected → ∃ p : Problem, saved = (.error (.problem p), tree) ∧
      p.message = "image dimensions overflow when computing buffer size") ∧
    (expected < UInt64.size → got ≠ expected → ∃ p : Problem, saved = (.error (.problem p), tree) ∧
      p.message = s!"PNG writer requires tight RGBA8 buffer: expected {expected} bytes, got {got}") ∧
    (expected < UInt64.size → got = expected → ∀ e, tree.wayToFile path = .error e →
      ∃ p : Problem, saved = (.error (.problem p), tree) ∧
        p.message = "failed to create output PNG at " ++ path ∧ p.causes = [e.message]) ∧
    (expected < UInt64.size → got = expected → ∀ way, tree.wayToFile path = .ok way →
      way = Path.namesOf path ∧ tree.SameBut way saved.2 ∧
      (picture.width = 0 ∨ picture.height = 0 →
        (∃ e, saved.1 = .error (.problem (.notEncoded path e))) ∧
        saved.2.entryAt? way = some (.file ByteArray.empty)) ∧
      (picture.width ≠ 0 → picture.height ≠ 0 → saved.1 = .ok () ∧
        ∃ file, saved.2.entryAt? way = some (.file file) ∧ saved.2.read? path = some file ∧
          codec.decode? file = some picture)) := by
  intro pixels expected got saved
  have hwidth := picture.width.toNat_lt
  have hheight := picture.height.toNat_lt
  refine ⟨?_, ?_, ?_, ?_, ?_, ?_⟩
  · calc
      pixels < 2 ^ 32 * 2 ^ 32 := Nat.mul_lt_mul'' hwidth hheight
      _ = UInt64.size := by decide
  · change 2 ^ 64 ≤ pixels * 4 ↔ 2 ^ 62 ≤ pixels
    omega
  · intro hlarge
    exact ⟨.sizeTooLarge, if_pos hlarge, rfl⟩
  · intro hfits hsize
    exact ⟨.bufferMismatch expected got, (if_neg (Nat.not_le.mpr hfits)).trans (if_pos hsize), rfl⟩
  · intro hfits hsize e hway
    exact ⟨.fileNotCreated path e, savePicture_of_no_way hsize hfits hway, rfl, rfl⟩
  · intro hfits hsize way hway
    have hroom := Node.room_of_wayToFile hway
    refine ⟨Node.names_of_wayToFile hway, ?_, ?_, ?_⟩
    · obtain ⟨bytes, htree⟩ := exists_savePicture_eq_put hsize hfits hway
      rw [htree]
      exact Node.sameBut_put hroom _
    · intro hside
      obtain ⟨e, hsaved⟩ := savePicture_of_no_side hsize hfits hway hside
      rw [show saved = _ from hsaved]
      exact ⟨⟨e, rfl⟩, Node.entryAt?_put_self hroom _⟩
    · intro hwidth hheight
      obtain ⟨file, hsaved, hdecode⟩ := savePicture_of_sides hsize hfits hway hwidth hheight
      rw [show saved = _ from hsaved]
      exact ⟨rfl, file, Node.entryAt?_put_self hroom _, Renderer.read?_put hway _, hdecode⟩

end Landscape
