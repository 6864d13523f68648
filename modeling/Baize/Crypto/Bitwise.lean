import Baize.Crypto.Crc32
import Baize.Lib.Crc

namespace Baize.Crypto

open Lib

def crc32Poly : UInt32 := 0xEDB88320

def crc32Bit (crc : UInt32) : UInt32 := if crc &&& 1 = 1 then (crc >>> 1) ^^^ crc32Poly else crc >>> 1

def crc32Byte (crc : UInt32) (b : UInt8) : UInt32 := crc32Bit^[8] (crc ^^^ b.toUInt32)

def crc32Bitwise (s : Bytes) : UInt32 := ~~~s.foldl crc32Byte 0xFFFFFFFF

theorem crc32Bit_toBitVec (crc : UInt32) : (crc32Bit crc).toBitVec = crcBit crc32Poly.toBitVec crc.toBitVec := by
  have hone : crc &&& 1 = 1 ↔ crc.toBitVec.getLsbD 0 = true := by
    rw [← UInt32.toBitVec_inj, UInt32.toBitVec_and]
    change crc.toBitVec &&& 1#32 = 1#32 ↔ _
    rw [BitVec.and_one_eq_setWidth_ofBool_getLsbD]
    cases crc.toBitVec.getLsbD 0 <;> decide
  unfold crc32Bit crcBit
  by_cases h : crc &&& 1 = 1
  · rw [if_pos h, if_pos (hone.mp h)]
    rfl
  · rw [if_neg h, if_neg (mt hone.mpr h)]
    rfl

theorem crc32Bit_iterate_toBitVec (n : ℕ) (crc : UInt32) :
    (crc32Bit^[n] crc).toBitVec = crcBits crc32Poly.toBitVec n crc.toBitVec := by
  induction n generalizing crc with
  | zero => rfl
  | succ n ih =>
    rw [Function.iterate_succ_apply, ih, crc32Bit_toBitVec]
    rfl

theorem crc32Table_toList : crc32Table.toList = (List.range 256).map fun i ↦ crc32Bit^[8] (UInt32.ofNat i) := by
  decide +kernel

theorem crc32Table_getD (x : UInt32) : crc32Table.getD (x &&& 0xFF).toNat 0 = crc32Bit^[8] (x &&& 0xFF) := by
  have hlt : (x &&& 0xFF).toNat < 256 := by
    rw [UInt32.toNat_and]
    exact Nat.and_lt_two_pow _ (show 255 < 2 ^ 8 by decide)
  rw [Array.getD_eq_getD_getElem?, ← Array.getElem?_toList, crc32Table_toList, List.getElem?_map,
    List.getElem?_range hlt, Option.map_some, Option.getD_some, UInt32.ofNat_toNat]

theorem crc32Step_eq (crc : UInt32) (b : UInt8) : crc32Step crc b = crc32Byte crc b := by
  have hbyte : (crc ^^^ b.toUInt32) >>> 8 = crc >>> 8 := by
    apply UInt32.toNat_inj.mp
    rw [UInt32.toNat_shiftRight, UInt32.toNat_shiftRight, UInt32.toNat_xor, Nat.shiftRight_xor_distrib,
      UInt8.toNat_toUInt32,
      show b.toNat >>> ((8 : UInt32).toNat % 32) = 0 from Nat.shiftRight_eq_zero _ _ b.toNat_lt, Nat.xor_zero]
  rw [crc32Step, crc32Table_getD, crc32Byte]
  apply UInt32.toBitVec_inj.mp
  rw [UInt32.toBitVec_xor, crc32Bit_iterate_toBitVec, crc32Bit_iterate_toBitVec,
    crcBits_split _ 8 (crc ^^^ b.toUInt32).toBitVec, ← hbyte]
  rfl

theorem crc32_eq_bitwise (s : Bytes) : crc32 s = crc32Bitwise s := by
  have hstep : crc32Step = crc32Byte := funext₂ crc32Step_eq
  rw [crc32, crc32Bitwise, hstep]
  apply UInt32.toBitVec_inj.mp
  exact BitVec.xor_allOnes

end Baize.Crypto
