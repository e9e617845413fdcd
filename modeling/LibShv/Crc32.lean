import Mathlib

/-!
# LibShv.Crc32

`Crc32Shv3` (`crc32.h`): the reflected CRC-32, a byte at a time.
-/

namespace LibShv

/-- `crc32_t`. -/
abbrev Crc32T := UInt32

def CRC_POSIX_POLY_REV : Crc32T := 0xEDB88320

/-- `crc32_for_byte`, a round of its loop. -/
def crc32Round (r : Crc32T) : Crc32T :=
  if r &&& 1 ≠ 0 then (r >>> 1) ^^^ CRC_POSIX_POLY_REV else r >>> 1

/-- `crc32_for_byte`: an entry of `make_table`. -/
def crc32ForByte (b : UInt8) : Crc32T := Nat.repeat crc32Round 8 b.toUInt32

/-- `Crc32Shv3`. -/
structure Crc32 where
  remainder : Crc32T
deriving DecidableEq

namespace Crc32

/-- A digest as it is made, and after `reset`. -/
def init : Crc32 := ⟨0xFFFFFFFF⟩

/-- `add` of a byte. -/
def add (crc : Crc32) (b : UInt8) : Crc32 :=
  let ix := (crc.remainder ^^^ b.toUInt32).toUInt8
  ⟨crc32ForByte ix ^^^ (crc.remainder >>> 8)⟩

/-- `add` of a range of bytes. -/
def addAll (crc : Crc32) (data : List UInt8) : Crc32 := data.foldl add crc

/-- `result`. -/
def result (crc : Crc32) : Crc32T := crc.remainder ^^^ 0xFFFFFFFF

end Crc32

/-! ## the four bytes of a CRC -/

/-- A CRC as `addFrameData` writes it, the most significant byte first. -/
def crcBytes (crc : Crc32T) : List UInt8 :=
  [(crc >>> 24).toUInt8, (crc >>> 16).toUInt8, (crc >>> 8).toUInt8, crc.toUInt8]

/-- The CRC that `finishFrame` makes of the bytes received. -/
def crcOfBytes (bytes : List UInt8) : Crc32T :=
  bytes.foldl (fun crc b => (crc <<< 8) + b.toUInt32) 0

theorem length_crcBytes (crc : Crc32T) : (crcBytes crc).length = 4 := rfl

theorem crcOfBytes_crcBytes (crc : Crc32T) : crcOfBytes (crcBytes crc) = crc := by
  have hlt := crc.toNat_lt
  apply UInt32.toNat.inj
  simp only [crcOfBytes, crcBytes, List.foldl_cons, List.foldl_nil, UInt32.toNat_add,
    UInt32.toNat_shiftLeft, UInt8.toNat_toUInt32, UInt32.toNat_toUInt8, UInt32.toNat_shiftRight,
    Nat.shiftLeft_eq, Nat.shiftRight_eq_div_pow, UInt32.toNat_ofNat]
  simp
  omega

end LibShv
