/-!
The two checksums of image files: one over chunks, one over compressed data.
-/

namespace ContentCard.Png

/-- One bit of the division by the chunk polynomial, the highest power in the lowest bit. -/
def crcBit (r : UInt32) : UInt32 :=
  if r &&& 1 = 1 then (r >>> 1) ^^^ 0xedb88320 else r >>> 1

def crcByte (r : UInt32) (b : UInt8) : UInt32 := Nat.repeat crcBit 8 (r ^^^ b.toUInt32)

/-- The remainder of a chunk, with all bits turned over before and after. -/
def crc (bytes : List UInt8) : UInt32 := ~~~(bytes.foldl crcByte 0xffffffff)

def adlerModulus : Nat := 65521

/-- The sum of the bytes, and above it the sum of all such sums on the way. -/
def adler (bytes : List UInt8) : UInt32 :=
  let (a, b) := bytes.foldl
    (fun (a, b) (x : UInt8) =>
      let a := (a + x.toNat) % adlerModulus
      (a, (b + a) % adlerModulus))
    (1, 0)
  UInt32.ofNat (b * 65536 + a)

end ContentCard.Png
