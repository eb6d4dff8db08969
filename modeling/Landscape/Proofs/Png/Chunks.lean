import Landscape.Proofs.Png.Bytes

namespace Landscape.Png

theorem size_bigEndian (n : UInt32) : (bigEndian n).size = 4 := rfl

namespace ChunkKind

theorem size_letters (k : ChunkKind) : k.letters.size = 4 := by
  cases k <;> rfl

theorem ofLetters?_letters (k : ChunkKind) : ofLetters? k.letters = some k := by
  cases k <;> rfl

end ChunkKind

namespace Chunk

def Fits (c : Chunk) : Prop :=
  c.data.size < UInt32.size

theorem size_bytes (c : Chunk) : c.bytes.size = c.data.size + 12 := by
  simp only [bytes, ByteArray.size_append, size_bigEndian, ChunkKind.size_letters]
  omega

theorem read?_append {c : Chunk} (h : c.Fits) (behind : ByteArray) :
    read? (c.bytes ++ behind) = some (c, behind) := by
  obtain ⟨kind, data⟩ := c
  let front := bigEndian data.size.toUInt32
  let body := kind.letters ++ data
  have hletters := kind.size_letters
  have hfront : front.size = 4 := rfl
  have hbody : body.size = data.size + 4 := by
    rw [ByteArray.size_append, hletters, Nat.add_comm]
  have hsize : (bytes ⟨kind, data⟩).size = data.size + 12 := size_bytes _
  have hbytes : bytes ⟨kind, data⟩ ++ behind =
      front ++ (body ++ (bigEndian (crc32 body) ++ behind)) := by
    simp only [bytes, front, body, ByteArray.append_assoc]
  have hlength : (bigEndianAt (bytes ⟨kind, data⟩ ++ behind) 0).toNat = data.size := by
    rw [hbytes, bigEndianAt_bigEndian]
    exact UInt32.toNat_ofNat_of_lt h
  have hextract : (bytes ⟨kind, data⟩ ++ behind).extract 4 (data.size + 8) = body := by
    rw [hbytes]
    exact extract_between _ _ _ rfl (by omega)
  have hcheck : bigEndianAt (bytes ⟨kind, data⟩ ++ behind) (data.size + 8) = crc32 body := by
    have hplace : data.size + 8 = front.size + (body.size + 0) := by omega
    rw [hbytes, hplace, bigEndianAt_append_right, bigEndianAt_append_right, bigEndianAt_bigEndian]
  have hkind : ChunkKind.ofLetters? (body.extract 0 4) = some kind := by
    rw [ByteArray.extract_append_eq_left hletters.symm, ChunkKind.ofLetters?_letters]
  have hdata : body.extract 4 body.size = data :=
    ByteArray.extract_append_eq_right hletters.symm ByteArray.size_append
  have hbehind : (bytes ⟨kind, data⟩ ++ behind).extract (data.size + 12)
      (bytes ⟨kind, data⟩ ++ behind).size = behind :=
    ByteArray.extract_append_eq_right hsize.symm ByteArray.size_append
  have hlarge : data.size + 12 ≤ (bytes ⟨kind, data⟩ ++ behind).size := by
    rw [ByteArray.size_append]
    omega
  unfold read?
  rw [if_neg (by omega), hlength, if_neg (by omega)]
  dsimp only
  rw [hextract, hcheck, hkind, hdata, hbehind, if_neg (fun hne => hne rfl)]
  rfl

/-- Chunks one after another are read back, with fuel for one more than there are. -/
theorem readAll?_join {cs : List Chunk} (h : ∀ c ∈ cs, c.Fits) {fuel : ℕ} (hfuel : cs.length < fuel) :
    readAll? (Image.join (cs.map bytes)) fuel = some cs := by
  induction cs generalizing fuel with
  | nil =>
    cases fuel with
    | zero => cases hfuel
    | succ fuel => rfl
  | cons c cs ih =>
    cases fuel with
    | zero => cases hfuel
    | succ fuel =>
      have hread := read?_append (h c List.mem_cons_self) (Image.join (cs.map bytes))
      have hne : (c.bytes ++ Image.join (cs.map bytes)).size ≠ 0 := by
        rw [ByteArray.size_append, size_bytes]
        omega
      rw [List.map_cons, Image.join_cons, readAll?, if_neg hne, hread]
      dsimp only [Option.bind_eq_bind, Option.bind_some]
      rw [ih (fun d hd => h d (List.mem_cons_of_mem c hd)) (by simpa using hfuel)]
      rfl

theorem length_le_size_join (cs : List Chunk) : cs.length * 12 ≤ (Image.join (cs.map bytes)).size := by
  induction cs with
  | nil => exact Nat.le_refl 0
  | cons c cs ih =>
    rw [List.map_cons, Image.join_cons, ByteArray.size_append, size_bytes, List.length_cons]
    omega

end Chunk
end Landscape.Png
