import Landscape.Png.Chunk

namespace Landscape.Png.Stored

def blockSize : Nat := 65535

def streamHeader : ByteArray := ⟨#[0x78, 0x01]⟩

def block (final : Bool) (bytes : ByteArray) : ByteArray :=
  ⟨#[if final then 1 else 0]⟩ ++ littleEndian bytes.size ++ littleEndian (blockSize - bytes.size)
    ++ bytes

def blocksFrom (data : ByteArray) (i : Nat) : Nat → List ByteArray
  | 0 => []
  | fuel + 1 =>
    let j := i + blockSize
    if j < data.size then block false (data.extract i j) :: blocksFrom data j fuel
    else [block true (data.extract i data.size)]

/-- The stream of some data, in the pieces in which it is written: header, blocks, checksum. -/
def pieces (data : ByteArray) : List ByteArray :=
  streamHeader :: blocksFrom data 0 (data.size / blockSize + 1) ++ [bigEndian (adler32 data)]

/-- The data of the blocks at the front of a stream, put behind `data`, and the bytes behind the last
block; `fuel` bounds the number of blocks. -/
def readBlocks (data stream : ByteArray) : Nat → Option (ByteArray × ByteArray)
  | 0 => none
  | fuel + 1 =>
    if stream.size < 5 then none
    else
      let size := littleEndianAt stream 1
      if stream.size < size + 5 ∨ littleEndianAt stream 3 ≠ blockSize - size then none
      else
        let data := data ++ stream.extract 5 (size + 5)
        let rest := stream.extract (size + 5) stream.size
        if stream.get! 0 = 0 then readBlocks data rest fuel
        else if stream.get! 0 = 1 then some (data, rest)
        else none

def unpack (stream : ByteArray) : Option ByteArray :=
  if (stream.extract 0 2).data ≠ streamHeader.data then none
  else do
    let (data, rest) ← readBlocks ByteArray.empty (stream.extract 2 stream.size) (stream.size / 5 + 1)
    if rest.data = (bigEndian (adler32 data)).data then some data else none

end Landscape.Png.Stored
