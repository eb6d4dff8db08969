import Landscape.Proofs.Png.Bytes

namespace Landscape.Png.Stored
open Image

variable {data bytes : ByteArray}

theorem size_block (final : Bool) (bytes : ByteArray) : (block final bytes).size = bytes.size + 5 := by
  have h (n : ℕ) : (littleEndian n).size = 2 := rfl
  simp only [block, ByteArray.size_append, h]
  change 1 + 2 + 2 + bytes.size = bytes.size + 5
  omega

theorem readBlocks_block {final : Bool} (h : bytes.size ≤ blockSize) (front behind : ByteArray)
    (fuel : ℕ) :
    readBlocks front (block final bytes ++ behind) (fuel + 1) =
      if final then some (front ++ bytes, behind) else readBlocks (front ++ bytes) behind fuel := by
  unfold blockSize at h
  let flag : ByteArray := ⟨#[if final then 1 else 0]⟩
  let length := littleEndian bytes.size
  let complement := littleEndian (blockSize - bytes.size)
  have hflag : flag.size = 1 := rfl
  have hlength : length.size = 2 := rfl
  have hcomplement : complement.size = 2 := rfl
  have hsize : (block final bytes).size = bytes.size + 5 := size_block final bytes
  have hstream : block final bytes ++ behind = flag ++ (length ++ (complement ++ (bytes ++ behind))) := by
    simp only [block, flag, length, complement, ByteArray.append_assoc]
  have hlarge : bytes.size + 5 ≤ (block final bytes ++ behind).size := by
    rw [ByteArray.size_append]
    omega
  have hread : littleEndianAt (block final bytes ++ behind) 1 = bytes.size := by
    have hplace : 1 = flag.size + 0 := rfl
    rw [hstream, hplace, littleEndianAt_append_right, littleEndianAt_littleEndian (by omega)]
  have hread' : littleEndianAt (block final bytes ++ behind) 3 = blockSize - bytes.size := by
    have hplace : 3 = flag.size + (length.size + 0) := rfl
    rw [hstream, hplace, littleEndianAt_append_right, littleEndianAt_append_right,
      littleEndianAt_littleEndian (by unfold blockSize; omega)]
  have hbytes : (block final bytes ++ behind).extract 5 (bytes.size + 5) = bytes := by
    rw [hstream, ← ByteArray.append_assoc, ← ByteArray.append_assoc]
    apply extract_between
    · rfl
    · simp only [ByteArray.size_append, hflag, hlength, hcomplement]
      omega
  have hbehind : (block final bytes ++ behind).extract (bytes.size + 5)
      (block final bytes ++ behind).size = behind :=
    ByteArray.extract_append_eq_right hsize.symm ByteArray.size_append
  have hfirst : (block final bytes ++ behind).get! 0 = if final then 1 else 0 := by
    rw [hstream, get!_append_left (by omega)]
    rfl
  rw [readBlocks, if_neg (by omega), hread, hread']
  dsimp only
  rw [if_neg (by omega), hbytes, hbehind, hfirst]
  cases final <;> rfl

/-- The blocks of the data from a position on, with fuel for all of them, give back these data. -/
theorem readBlocks_blocksFrom {i fuel : ℕ} (hi : i ≤ data.size)
    (hfuel : data.size < i + fuel * blockSize) (front behind : ByteArray) {steps : ℕ}
    (hsteps : (blocksFrom data i fuel).length ≤ steps) :
    readBlocks front (join (blocksFrom data i fuel) ++ behind) steps =
      some (front ++ data.extract i data.size, behind) := by
  induction fuel generalizing i front steps with
  | zero => omega
  | succ fuel ih =>
    rw [Nat.succ_mul] at hfuel
    have hsome : blocksFrom data i (fuel + 1) =
        if i + blockSize < data.size then
          block false (data.extract i (i + blockSize)) :: blocksFrom data (i + blockSize) fuel
        else [block true (data.extract i data.size)] := rfl
    by_cases hmore : i + blockSize < data.size
    · rw [hsome, if_pos hmore] at hsteps ⊢
      rw [List.length_cons] at hsteps
      have hsize : (data.extract i (i + blockSize)).size ≤ blockSize := by
        rw [ByteArray.size_extract]
        omega
      obtain ⟨steps, rfl⟩ : ∃ k, steps = k + 1 := ⟨steps - 1, by omega⟩
      have hsplit : data.extract i data.size =
          data.extract i (i + blockSize) ++ data.extract (i + blockSize) data.size :=
        ByteArray.extract_eq_extract_append_extract _ (by omega) (by omega)
      rw [join_cons, ByteArray.append_assoc, readBlocks_block hsize, hsplit, ← ByteArray.append_assoc]
      exact ih (by omega) (by omega) _ (by omega)
    · rw [hsome, if_neg hmore] at hsteps ⊢
      have hsize : (data.extract i data.size).size ≤ blockSize := by
        rw [ByteArray.size_extract]
        omega
      obtain ⟨steps, rfl⟩ : ∃ k, steps = k + 1 := ⟨steps - 1, by simp at hsteps; omega⟩
      rw [join_cons, join_nil, ByteArray.append_empty, readBlocks_block hsize]
      rfl

theorem length_le_size_join_blocksFrom (data : ByteArray) (i fuel : ℕ) :
    (blocksFrom data i fuel).length * 5 ≤ (join (blocksFrom data i fuel)).size := by
  induction fuel generalizing i with
  | zero => exact Nat.le_refl 0
  | succ fuel ih =>
    rw [blocksFrom]
    split
    · have h := ih (i + blockSize)
      rw [join_cons, ByteArray.size_append, size_block, List.length_cons]
      omega
    · rw [join_cons, ByteArray.size_append, size_block]
      simp

theorem size_le_of_mem_blocksFrom {b : ByteArray} {i fuel : ℕ} (h : b ∈ blocksFrom data i fuel) :
    b.size ≤ blockSize + 5 := by
  induction fuel generalizing i with
  | zero => cases h
  | succ fuel ih =>
    rw [blocksFrom] at h
    split at h
    · rcases List.mem_cons.mp h with rfl | h
      · rw [size_block, ByteArray.size_extract]
        omega
      · exact ih h
    · rw [List.mem_singleton.mp h, size_block, ByteArray.size_extract]
      omega

theorem size_le_of_mem_pieces {p : ByteArray} (h : p ∈ pieces data) : p.size ≤ blockSize + 5 := by
  simp only [pieces, List.cons_append, List.mem_cons, List.mem_append, List.not_mem_nil,
    or_false] at h
  rcases h with rfl | h | rfl
  · decide
  · exact size_le_of_mem_blocksFrom h
  · exact Nat.le_trans (Nat.le_of_eq rfl : _ ≤ 4) (by decide)

/-- The stream of some data unpacks to the data. -/
theorem unpack_join_pieces (data : ByteArray) : unpack (join (pieces data)) = some data := by
  let blocks := join (blocksFrom data 0 (data.size / blockSize + 1))
  let check := bigEndian (adler32 data)
  have hstream : join (pieces data) = streamHeader ++ (blocks ++ check) := by
    simp [pieces, blocks, check]
  have hheader : streamHeader.size = 2 := rfl
  have hfirst : (join (pieces data)).extract 0 2 = streamHeader := by
    rw [hstream]
    exact ByteArray.extract_append_eq_left rfl
  have hrest : (join (pieces data)).extract 2 (join (pieces data)).size = blocks ++ check := by
    rw [hstream]
    exact ByteArray.extract_append_eq_right rfl ByteArray.size_append
  have hcount : (blocksFrom data 0 (data.size / blockSize + 1)).length ≤
      (join (pieces data)).size / 5 + 1 := by
    have hlength : _ ≤ blocks.size := length_le_size_join_blocksFrom data 0 (data.size / blockSize + 1)
    rw [hstream, ByteArray.size_append, ByteArray.size_append]
    omega
  have hfuel : data.size < 0 + (data.size / blockSize + 1) * blockSize := by
    unfold blockSize
    omega
  rw [unpack, hfirst, if_neg (fun hne => hne rfl), hrest,
    readBlocks_blocksFrom (Nat.zero_le _) hfuel _ _ hcount, ByteArray.extract_zero_size,
    ByteArray.empty_append]
  exact if_pos rfl

end Landscape.Png.Stored
