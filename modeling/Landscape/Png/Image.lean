import Landscape.Png.Chunk
import Landscape.Png.Stored

namespace Landscape.Png

/-- A picture: its size and the bytes of its pixels, row by row, red, green, blue and alpha. -/
structure Image where
  width : UInt32
  height : UInt32
  rgba : ByteArray

inductive EncodeError where
  | zeroWidth
  | zeroHeight
  deriving DecidableEq, Repr

def EncodeError.message : EncodeError → String
  | .zeroWidth => "Zero width not allowed"
  | .zeroHeight => "Zero height not allowed"

namespace Image

def signature : ByteArray :=
  ⟨#[0x89, 0x50, 0x4e, 0x47, 0x0d, 0x0a, 0x1a, 0x0a]⟩

/-- What follows the size in the header: eight bits a channel, colour with alpha, the one
compression and filter method there is, no interlacing. -/
def format : ByteArray := ⟨#[8, 6, 0, 0, 0]⟩

/-- The rows from row `y` on put at the end, `count` of them, each after the byte for no filter. -/
def pushRows (rgba : ByteArray) (stride : Nat) (lines : ByteArray) (y : Nat) : Nat → ByteArray
  | 0 => lines
  | count + 1 =>
    pushRows rgba stride ((lines.push 0) ++ rgba.extract (y * stride) ((y + 1) * stride)) (y + 1) count

def scanlines (i : Image) : ByteArray :=
  pushRows i.rgba (i.width.toNat * 4) ByteArray.empty 0 i.height.toNat

def pullRows (lines : ByteArray) (stride : Nat) (rgba : ByteArray) (y : Nat) : Nat → Option ByteArray
  | 0 => some rgba
  | count + 1 =>
    let i := y * (stride + 1)
    if lines.get! i ≠ 0 then none
    else pullRows lines stride (rgba ++ lines.extract (i + 1) (i + 1 + stride)) (y + 1) count

def chunks (i : Image) : List Chunk :=
  ⟨.header, bigEndian i.width ++ bigEndian i.height ++ format⟩
    :: (Stored.pieces i.scanlines).map (⟨.data, ·⟩) ++ [⟨.stop, ByteArray.empty⟩]

def join (parts : List ByteArray) : ByteArray :=
  parts.foldl (· ++ ·) ByteArray.empty

/-- The file of a picture; a picture without breadth or height has none. -/
def encode (i : Image) : Except EncodeError ByteArray :=
  if i.width = 0 then .error .zeroWidth
  else if i.height = 0 then .error .zeroHeight
  else .ok (signature ++ join (i.chunks.map Chunk.bytes))

def ofScanlines? (width height : UInt32) (lines : ByteArray) : Option Image :=
  let stride := width.toNat * 4
  if lines.size ≠ height.toNat * (stride + 1) then none
  else (pullRows lines stride ByteArray.empty 0 height.toNat).map (⟨width, height, ·⟩)

def ofChunks? (header : ByteArray) (rest : List Chunk) : Option Image :=
  if header.size ≠ 13 ∨ (header.extract 8 13).data ≠ format.data then none
  else
    let data := rest.takeWhile (·.kind == .data)
    match rest.drop data.length with
    | [⟨.stop, _⟩] => do
      let lines ← Stored.unpack (join (data.map (·.data)))
      ofScanlines? (bigEndianAt header 0) (bigEndianAt header 4) lines
    | _ => none

def decode? (file : ByteArray) : Option Image :=
  if (file.extract 0 8).data ≠ signature.data then none
  else do
    match ← Chunk.readAll? (file.extract 8 file.size) (file.size / 12 + 1) with
    | ⟨.header, header⟩ :: rest => ofChunks? header rest
    | _ => none

end Image

/-- A way to write pictures to files and to read them. -/
structure Codec where
  encode : Image → Except EncodeError ByteArray
  decode? : ByteArray → Option Image

def Codec.stored : Codec := ⟨Image.encode, Image.decode?⟩

end Landscape.Png
