import Landscape.Proofs.Png.Chunks
import Landscape.Proofs.Png.Stored

namespace Landscape.Png
namespace Image

def storedRow (rgba : ByteArray) (stride y : ℕ) : ByteArray :=
  ByteArray.empty.push 0 ++ rgba.extract (y * stride) ((y + 1) * stride)

theorem pushRows_eq_append (rgba : ByteArray) (stride : ℕ) (lines : ByteArray) (y count : ℕ) :
    pushRows rgba stride lines y count = lines ++ pushRows rgba stride ByteArray.empty y count := by
  induction count generalizing lines y with
  | zero => rw [pushRows, pushRows, ByteArray.append_empty]
  | succ count ih =>
    have hpush : lines.push 0 = lines ++ ByteArray.empty.push 0 :=
      ByteArray.append_toByteArray_singleton.symm
    rw [pushRows, ih, pushRows, ih (_ ++ _), hpush]
    simp only [ByteArray.append_assoc]

theorem pushRows_succ (rgba : ByteArray) (stride y count : ℕ) :
    pushRows rgba stride ByteArray.empty y (count + 1) =
      storedRow rgba stride y ++ pushRows rgba stride ByteArray.empty (y + 1) count := by
  rw [pushRows, pushRows_eq_append]
  rfl

variable {rgba : ByteArray} {stride : ℕ}

theorem size_storedRow {y : ℕ} (h : (y + 1) * stride ≤ rgba.size) :
    (storedRow rgba stride y).size = stride + 1 := by
  rw [Nat.succ_mul] at h
  rw [storedRow, ByteArray.size_append, ByteArray.size_extract, Nat.succ_mul, Nat.min_eq_left h,
    Nat.add_sub_cancel_left, Nat.add_comm]
  rfl

theorem size_pushRows {y count : ℕ} (h : (y + count) * stride ≤ rgba.size) :
    (pushRows rgba stride ByteArray.empty y count).size = count * (stride + 1) := by
  induction count generalizing y with
  | zero => simp [pushRows]
  | succ count ih =>
    have hrow : (y + 1) * stride ≤ rgba.size :=
      Nat.le_trans (Nat.mul_le_mul_right _ (by omega)) h
    rw [pushRows_succ, ByteArray.size_append, size_storedRow hrow,
      ih (by rwa [Nat.add_right_comm]), Nat.succ_mul, Nat.add_comm]

theorem pullRows_pushRows {y count : ℕ} (h : (y + count) * stride ≤ rgba.size) (before : ByteArray)
    (hbefore : before.size = y * (stride + 1)) (front : ByteArray) :
    pullRows (before ++ pushRows rgba stride ByteArray.empty y count) stride front y count =
      some (front ++ rgba.extract (y * stride) ((y + count) * stride)) := by
  induction count generalizing y before front with
  | zero => rw [pullRows, Nat.add_zero, ByteArray.extract_same, ByteArray.append_empty]
  | succ count ih =>
    have hrow : (y + 1) * stride ≤ rgba.size :=
      Nat.le_trans (Nat.mul_le_mul_right _ (by omega)) h
    have hcount : y + (count + 1) = y + 1 + count := by omega
    let row := rgba.extract (y * stride) ((y + 1) * stride)
    let behind := pushRows rgba stride ByteArray.empty (y + 1) count
    let mark : ByteArray := ByteArray.empty.push 0
    have hmark : mark.size = 1 := rfl
    have hsize : (storedRow rgba stride y).size = stride + 1 := size_storedRow hrow
    have hrows : before ++ pushRows rgba stride ByteArray.empty y (count + 1) =
        before ++ storedRow rgba stride y ++ behind := by
      rw [pushRows_succ, ByteArray.append_assoc]
    have hbefore' : (before ++ storedRow rgba stride y).size = (y + 1) * (stride + 1) := by
      rw [ByteArray.size_append, hbefore, hsize, Nat.succ_mul]
    have hfirst : (before ++ storedRow rgba stride y ++ behind).get! (y * (stride + 1)) = 0 := by
      rw [← hbefore, ByteArray.append_assoc, ← Nat.add_zero before.size, get!_append_right,
        get!_append_left (by omega)]
      exact get!_append_left (a := mark) (by omega)
    have hrow' : (before ++ storedRow rgba stride y ++ behind).extract (y * (stride + 1) + 1)
        (y * (stride + 1) + 1 + stride) = row := by
      have hparts : before ++ storedRow rgba stride y ++ behind = (before ++ mark) ++ (row ++ behind) := by
        simp only [storedRow, mark, row, ByteArray.append_assoc]
      have hfront : (before ++ mark).size = y * (stride + 1) + 1 := by
        rw [ByteArray.size_append, hbefore, hmark]
      have hlength : row.size = stride := by
        rw [storedRow, ByteArray.size_append] at hsize
        change 1 + row.size = stride + 1 at hsize
        omega
      rw [hparts]
      exact extract_between _ _ _ hfront.symm (by rw [hfront, hlength])
    have hsplit : rgba.extract (y * stride) ((y + (count + 1)) * stride) =
        row ++ rgba.extract ((y + 1) * stride) ((y + 1 + count) * stride) := by
      rw [hcount]
      exact ByteArray.extract_eq_extract_append_extract _ (Nat.mul_le_mul_right _ (by omega))
        (Nat.mul_le_mul_right _ (by omega))
    rw [pullRows, hrows, hfirst, hrow', hsplit, ← ByteArray.append_assoc, if_neg (fun hne => hne rfl)]
    exact ih (by rwa [← hcount]) _ hbefore' _

theorem ofScanlines?_scanlines {i : Image} (h : i.rgba.size = i.width.toNat * i.height.toNat * 4) :
    ofScanlines? i.width i.height i.scanlines = some i := by
  obtain ⟨width, height, rgba⟩ := i
  have hsize : (0 + height.toNat) * (width.toNat * 4) = rgba.size := by
    rw [Nat.zero_add, h, Nat.mul_comm height.toNat, Nat.mul_right_comm]
  have hlines : (scanlines ⟨width, height, rgba⟩).size = height.toNat * (width.toNat * 4 + 1) :=
    size_pushRows (Nat.le_of_eq hsize)
  have hpull := pullRows_pushRows (Nat.le_of_eq hsize) ByteArray.empty (by simp) ByteArray.empty
  rw [ByteArray.empty_append, ByteArray.empty_append, Nat.zero_mul, hsize,
    ByteArray.extract_zero_size] at hpull
  unfold ofScanlines?
  dsimp only
  rw [if_neg (not_not_intro hlines), scanlines, hpull]
  rfl

theorem ofChunks?_pieces {i : Image} (h : i.rgba.size = i.width.toNat * i.height.toNat * 4) :
    ofChunks? (bigEndian i.width ++ bigEndian i.height ++ format)
      ((Stored.pieces i.scanlines).map (⟨.data, ·⟩) ++ [⟨.stop, ByteArray.empty⟩]) = some i := by
  let header := bigEndian i.width ++ bigEndian i.height ++ format
  let data : List Chunk := (Stored.pieces i.scanlines).map (⟨.data, ·⟩)
  have hsize : header.size = 13 := by
    simp only [header, ByteArray.size_append, size_bigEndian]
    rfl
  have hformat : header.extract 8 13 = format := by
    apply ByteArray.extract_append_eq_right <;>
      simp only [ByteArray.size_append, size_bigEndian]
    rfl
  have hwidth : bigEndianAt header 0 = i.width := by
    simp only [header, ByteArray.append_assoc, bigEndianAt_bigEndian]
  have hheight : bigEndianAt header 4 = i.height := by
    have hplace : 4 = (bigEndian i.width).size + 0 := rfl
    simp only [header, ByteArray.append_assoc]
    rw [hplace, bigEndianAt_append_right, bigEndianAt_bigEndian]
  have hdata : (data ++ [Chunk.mk .stop ByteArray.empty]).takeWhile (·.kind == .data) = data := by
    rw [List.takeWhile_append_of_pos]
    · exact List.append_nil data
    · intro c hc
      obtain ⟨bytes, -, rfl⟩ := List.mem_map.mp hc
      rfl
  have hbytes : data.map (·.data) = Stored.pieces i.scanlines := by
    simp [data, Function.comp_def]
  unfold ofChunks?
  rw [if_neg (by rw [hsize, hformat]; simp)]
  dsimp only
  rw [hdata, List.drop_left, hbytes, Stored.unpack_join_pieces, hwidth, hheight]
  exact ofScanlines?_scanlines h

theorem fits_of_mem_chunks {i : Image} {c : Chunk} (h : c ∈ i.chunks) : c.Fits := by
  have hsmall {n : ℕ} (hn : n ≤ Stored.blockSize + 5) : n < UInt32.size :=
    Nat.lt_of_le_of_lt hn (by decide)
  simp only [chunks, List.cons_append, List.mem_cons, List.mem_append, List.mem_map,
    List.not_mem_nil, or_false] at h
  rcases h with rfl | ⟨p, hp, rfl⟩ | rfl
  · apply hsmall
    simp only [ByteArray.size_append, size_bigEndian]
    decide
  · exact hsmall (Stored.size_le_of_mem_pieces hp)
  · exact hsmall (Nat.zero_le _)

/-- The file of a picture with four bytes for each pixel decodes to the picture. -/
theorem decode?_of_encode {i : Image} {file : ByteArray} (hencode : i.encode = .ok file)
    (hsize : i.rgba.size = i.width.toNat * i.height.toNat * 4) : decode? file = some i := by
  unfold encode at hencode
  split at hencode
  · cases hencode
  · split at hencode
    · cases hencode
    · cases hencode
      let body := join (i.chunks.map Chunk.bytes)
      have hsignature : (signature ++ body).extract 0 8 = signature :=
        ByteArray.extract_append_eq_left rfl
      have hbody : (signature ++ body).extract 8 (signature ++ body).size = body :=
        ByteArray.extract_append_eq_right rfl ByteArray.size_append
      have hfuel : i.chunks.length < (signature ++ body).size / 12 + 1 := by
        have hlength : _ ≤ body.size := Chunk.length_le_size_join i.chunks
        rw [ByteArray.size_append]
        omega
      change decode? (signature ++ body) = some i
      rw [decode?, hsignature, if_neg (fun hne => hne rfl), hbody,
        Chunk.readAll?_join (fun c hc => fits_of_mem_chunks hc) hfuel, chunks, List.cons_append,
        Option.bind_eq_bind, Option.bind_some]
      exact ofChunks?_pieces hsize

/-- A picture has a file unless one of its sides is zero. -/
theorem exists_encode_iff {i : Image} :
    (∃ file, i.encode = .ok file) ↔ i.width ≠ 0 ∧ i.height ≠ 0 := by
  unfold encode
  by_cases hwidth : i.width = 0
  · simp [hwidth]
  · by_cases hheight : i.height = 0
    · simp [hwidth, hheight]
    · simp [hwidth, hheight]

end Image

/-- A codec that refuses no pictures but those without one of their sides, and that reads what it has
written. -/
structure LawfulCodec extends Codec where
  exists_encode_iff {i : Image} : i.rgba.size = i.width.toNat * i.height.toNat * 4 →
    ((∃ file, encode i = .ok file) ↔ i.width ≠ 0 ∧ i.height ≠ 0)
  decode?_of_encode {i : Image} {file : ByteArray} : encode i = .ok file →
    i.rgba.size = i.width.toNat * i.height.toNat * 4 → decode? file = some i

namespace LawfulCodec

instance : Coe LawfulCodec Codec := ⟨toCodec⟩

def stored : LawfulCodec where
  toCodec := .stored
  exists_encode_iff _ := Image.exists_encode_iff
  decode?_of_encode := Image.decode?_of_encode

variable {codec : LawfulCodec} {i : Image} (hsize : i.rgba.size = i.width.toNat * i.height.toNat * 4)
include hsize

theorem side_eq_zero {e : EncodeError} (h : codec.encode i = .error e) :
    i.width = 0 ∨ i.height = 0 := by
  by_cases hsides : i.width = 0 ∨ i.height = 0
  · exact hsides
  · obtain ⟨file, hfile⟩ := (codec.exists_encode_iff hsize).mpr (not_or.mp hsides)
    cases h.symm.trans hfile

theorem exists_encode_eq_error (h : i.width = 0 ∨ i.height = 0) : ∃ e, codec.encode i = .error e := by
  rcases hencode : codec.encode i with e | file
  · exact ⟨e, rfl⟩
  · exact absurd h (not_or.mpr ((codec.exists_encode_iff hsize).mp ⟨file, hencode⟩))

end LawfulCodec
end Landscape.Png
