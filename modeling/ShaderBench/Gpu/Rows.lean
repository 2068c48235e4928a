/-
Rows of pixels in a read-back buffer: each starts at a multiple of 256 bytes, and what pads it is
dropped from the picture. Byte counts are 32-bit words.
-/
namespace ShaderBench.Gpu

def bytesPerPixel : Nat := 4
def rowAlignment : Nat := 256

def word? (n : Nat) : Option Nat := if n < UInt32.size then some n else none

def rowBytes? (width : Nat) : Option Nat := word? (width * bytesPerPixel)

def paddedRowBytes? (width : Nat) : Option Nat := do
  let n ← rowBytes? width
  word? ((n + rowAlignment - 1) / rowAlignment * rowAlignment)

/-- The first bytes of each of some padded rows; the last row of the data may be short. There is
    no result if one has fewer bytes than asked for. -/
def unpadFrom (row padded : Nat) : Nat → List UInt8 → Option (List UInt8)
  | 0, _ => some []
  | height + 1, data =>
    if data.isEmpty then some []
    else if (data.take padded).length < row then none
    else (unpadFrom row padded height (data.drop padded)).map (data.take row ++ ·)

def pictureLimit : Nat := Int64.maxValue.toNatClampNeg

def unpadRows (data : List UInt8) (width height padded : Nat) : Option (List UInt8) := do
  let row ← rowBytes? width
  if padded = 0 || pictureLimit < row * height then none else unpadFrom row padded height data

end ShaderBench.Gpu
