namespace Landscape.Png

def bigEndian (n : UInt32) : ByteArray :=
  ⟨#[(n >>> 24).toUInt8, (n >>> 16).toUInt8, (n >>> 8).toUInt8, n.toUInt8]⟩

def bigEndianAt (bytes : ByteArray) (i : Nat) : UInt32 :=
  ((bytes.get! i).toUInt32 <<< 24) ||| ((bytes.get! (i + 1)).toUInt32 <<< 16)
    ||| ((bytes.get! (i + 2)).toUInt32 <<< 8) ||| (bytes.get! (i + 3)).toUInt32

def littleEndian (n : Nat) : ByteArray :=
  ⟨#[UInt8.ofNat n, UInt8.ofNat (n / 256)]⟩

def littleEndianAt (bytes : ByteArray) (i : Nat) : Nat :=
  (bytes.get! i).toNat + (bytes.get! (i + 1)).toNat * 256

/-- The remainder of one byte by the CRC polynomial, `steps` bits further. -/
def crcShift (c : UInt32) : Nat → UInt32
  | 0 => c
  | steps + 1 => crcShift (if c &&& 1 = 1 then (0xedb88320 : UInt32) ^^^ (c >>> 1) else c >>> 1) steps

def crcTable : Array UInt32 :=
  Array.ofFn fun (i : Fin 256) => crcShift i.val.toUInt32 8

def crcStep (c : UInt32) (byte : UInt8) : UInt32 :=
  crcTable.getD ((c ^^^ byte.toUInt32) &&& 0xff).toNat 0 ^^^ (c >>> 8)

def crc32 (bytes : ByteArray) : UInt32 :=
  bytes.foldl crcStep 0xffffffff ^^^ 0xffffffff

def adlerModulus : UInt32 := 65521

def adlerFrom (bytes : ByteArray) (i : Nat) (a b : UInt32) : Nat → UInt32
  | 0 => (b <<< 16) ||| a
  | count + 1 =>
    let a := (a + (bytes.get! i).toUInt32) % adlerModulus
    adlerFrom bytes (i + 1) a ((b + a) % adlerModulus) count

/-- The sum of the bytes and the sum of these sums, as one word. -/
def adler32 (bytes : ByteArray) : UInt32 :=
  adlerFrom bytes 0 1 0 bytes.size

inductive ChunkKind where
  | header
  | data
  | stop
  deriving DecidableEq, Repr

def ChunkKind.letters : ChunkKind → ByteArray
  | .header => "IHDR".toUTF8
  | .data => "IDAT".toUTF8
  | .stop => "IEND".toUTF8

def ChunkKind.ofLetters? (letters : ByteArray) : Option ChunkKind :=
  [ChunkKind.header, .data, .stop].find? (·.letters == letters)

structure Chunk where
  kind : ChunkKind
  data : ByteArray

namespace Chunk

/-- The bytes of a chunk: length, kind, data, check. -/
def bytes (c : Chunk) : ByteArray :=
  let body := c.kind.letters ++ c.data
  bigEndian c.data.size.toUInt32 ++ body ++ bigEndian (crc32 body)

def read? (bytes : ByteArray) : Option (Chunk × ByteArray) :=
  if bytes.size < 12 then none
  else
    let size := (bigEndianAt bytes 0).toNat
    if bytes.size < size + 12 then none
    else
      let body := bytes.extract 4 (size + 8)
      if bigEndianAt bytes (size + 8) ≠ crc32 body then none
      else do
        let kind ← ChunkKind.ofLetters? (body.extract 0 4)
        some (⟨kind, body.extract 4 body.size⟩, bytes.extract (size + 12) bytes.size)

/-- The chunks of which some bytes consist; `fuel` bounds their number. -/
def readAll? (bytes : ByteArray) : Nat → Option (List Chunk)
  | 0 => none
  | fuel + 1 =>
    if bytes.size = 0 then some []
    else do
      let (chunk, rest) ← read? bytes
      some (chunk :: (← readAll? rest fuel))

end Chunk
end Landscape.Png
