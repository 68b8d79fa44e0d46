import Mathlib.Data.Nat.Bitwise

/-!
# The checksum of `external/lib/cksum/crc32.c`
-/

namespace LkHv

/-- `poly` of `make_crc_table` -/
def crcPoly : Nat := 0xedb88320

/-- `crc_table[0][n]`: eight steps of the shift register -/
def crcTable (n : Nat) : Nat := Nat.repeat (fun c => if c &&& 1 ≠ 0 then crcPoly ^^^ (c >>> 1) else c >>> 1) 8 n

/-- `crc32`, `DO1` byte by byte -/
def crc32 (crc : Nat) (buf : List UInt8) : Nat :=
  buf.foldl (fun c b => crcTable ((c ^^^ b.toNat) &&& 0xff) ^^^ (c >>> 8)) (crc % 2 ^ 32 ^^^ 0xffffffff) ^^^ 0xffffffff

/-- the check value of the code: the bytes of `123456789` -/
example : crc32 0 [49, 50, 51, 52, 53, 54, 55, 56, 57] = 0xcbf43926 := by decide +kernel

end LkHv
