import JppDos.Ble.Msg
import JppDos.Lib.CrcTable
import JppDos.Lrv.Identity

/-!
# The checksums of the device and of its host tools

The device has two CRC-32 loops (`jpp_serial_mgr.c`, `jpp_ble_msg.c`) and two CRC-16 loops
(`jpp_serial_mgr.c`, `jpp_lrv.c`); the host tool has one CRC-16 loop and takes its CRC-32
from zlib, which looks bytes up in a table and hands the finished value on from piece to
piece.

Main fact:
* `checksums_agree`: all of them are the same two functions, fed in any pieces.
-/

namespace JppDos
namespace Serial

open Crc

/-- `zlib.crc32(data, value)`: the table-driven loop between two complements. -/
def zlibCrc32Run (value : UInt32) (data : List UInt8) : UInt32 :=
  ~~~(crcFold (tableStep32 0xEDB88320) (~~~value) data)

theorem crc32Bit_eq : crc32Bit = lsbBit32 0xEDB88320 := rfl

/-- The table-driven loop is the bitwise one of the device. -/
theorem zlibCrc32Run_eq (value : UInt32) (data : List UInt8) :
    zlibCrc32Run value data = ~~~(crc32Buf (~~~value) data) := by
  have hstep : tableStep32 0xEDB88320 = crc32Step :=
    funext fun crc => funext fun byte => tableStep32_eq 0xEDB88320 crc byte
  rw [zlibCrc32Run, crc32Buf, hstep]

/-- The finished value of a piece can be handed to the next one. -/
theorem zlibCrc32Run_append (value : UInt32) (xs ys : List UInt8) :
    zlibCrc32Run value (xs ++ ys) = zlibCrc32Run (zlibCrc32Run value xs) ys := by
  rw [zlibCrc32Run, zlibCrc32Run, zlibCrc32Run, UInt32.not_not, crcFold_append]

/-- What can be fed in two pieces can be fed in any number of pieces. -/
theorem foldl_pieces {σ : Type} {feed : σ → List UInt8 → σ} (hnil : ∀ s, feed s [] = s)
    (happend : ∀ s xs ys, feed s (xs ++ ys) = feed (feed s xs) ys) (s : σ)
    (pieces : List (List UInt8)) : pieces.foldl feed s = feed s pieces.flatten := by
  induction pieces generalizing s with
  | nil => exact (hnil s).symm
  | cons piece pieces ih => rw [List.foldl_cons, ih, List.flatten_cons, happend]

/-- All CRC-32 functions agree on every byte string in every way of cutting it into pieces, and
so do all CRC-16 functions. -/
theorem checksums_agree (pieces : List (List UInt8)) :
    (~~~(pieces.foldl crc32Buf 0xFFFFFFFF) = ~~~(crc32Buf 0xFFFFFFFF pieces.flatten) ∧
      Ble.crc32Buf pieces.flatten = ~~~(crc32Buf 0xFFFFFFFF pieces.flatten) ∧
      zlibCrc32Run 0 pieces.flatten = ~~~(crc32Buf 0xFFFFFFFF pieces.flatten) ∧
      pieces.foldl zlibCrc32Run 0 = zlibCrc32Run 0 pieces.flatten) ∧
    pieces.foldl crc16Buf 0xFFFF = crc16Buf 0xFFFF pieces.flatten ∧
      Lrv.crc16Ccitt pieces.flatten = crc16Buf 0xFFFF pieces.flatten ∧
      crc16CcittFalse pieces.flatten = (crc16Buf 0xFFFF pieces.flatten).toNat := by
  refine ⟨⟨?_, ?_, ?_, ?_⟩, ?_, rfl, crc16CcittFalse_eq _⟩
  · rw [foldl_pieces (fun _ => rfl) crc32Buf_append]
  · exact Ble.crc32Buf_eq _
  · exact zlibCrc32Run_eq 0 _
  · exact foldl_pieces (fun _ => UInt32.not_not) zlibCrc32Run_append _ _
  · exact foldl_pieces (fun _ => rfl) crc16Buf_append _ _

end Serial
end JppDos
