/- Evi7688/Azurectl/Crc16
   digest: The checksum of the meter's frames and the damage it notices. -/

import Mathlib.Data.List.Basic
import Evi7688.Library.ShiftRegister

set_option autoImplicit false
set_option relaxedAutoImplicit false

namespace Evi7688.Azurectl.Crc16

open Evi7688.Library.ShiftRegister

def poly : BitVec 16 := 0xA001

def wide (byte : UInt8) : BitVec 16 := byte.toBitVec.setWidth 16

def shiftOnce (crc : BitVec 16) : BitVec 16 :=
  if crc &&& 1 ≠ 0 then (crc >>> 1) ^^^ poly else crc >>> 1

/-- The inner loop, with `j` rounds left. -/
def shiftLoop : Nat → BitVec 16 → BitVec 16
  | 0, crc => crc
  | j + 1, crc => shiftLoop j (shiftOnce crc)

def crcByte (crc : BitVec 16) (byte : UInt8) : BitVec 16 := shiftLoop 8 (crc ^^^ wide byte)

def crc16 (data : List UInt8) : BitVec 16 := data.foldl crcByte 0xFFFF

/-- The two loops of `mb_read_holding_regs`, one over the header and one over the data. -/
def crcCalc (hdr data : List UInt8) : BitVec 16 :=
  let crcHdr := hdr.foldl crcByte 0xFFFF
  data.foldl crcByte crcHdr

/-- `out[n] | out[n + 1] << 8`. -/
def crcRecv (out : List UInt8) (n : Nat) : BitVec 16 :=
  wide (out.getD n 0) ||| (wide (out.getD (n + 1) 0) <<< 8)

/-- The two bytes that follow a message, the low one first. -/
def crcBytes (crc : BitVec 16) : List UInt8 :=
  [⟨crc.setWidth 8⟩, ⟨(crc >>> 8).setWidth 8⟩]

def bitsOf (byte : UInt8) : List Bool := (List.range 8).map byte.toBitVec.getLsbD

/-- Bytes in the order in which a serial line sends their bits. -/
def serialBits (data : List UInt8) : List Bool := data.flatMap bitsOf

theorem poly_top : poly.getLsbD (16 - 1) = true := rfl

section Register

theorem shiftOnce_eq (crc : BitVec 16) : shiftOnce crc = shift poly crc := by
  have hlow : crc &&& 1 ≠ 0 ↔ crc.getLsbD 0 = true := by
    constructor
    · intro h
      by_contra hclear
      apply h
      apply BitVec.eq_of_getLsbD_eq
      intro i hi
      cases i with
      | zero => simpa using hclear
      | succ i => simp [BitVec.getLsbD_one]
    · intro h hzero
      have hbit := congrArg (fun v => v.getLsbD 0) hzero
      simp only [BitVec.getLsbD_and, h] at hbit
      simp at hbit
  rw [shiftOnce, shift]
  by_cases h : crc.getLsbD 0 = true
  · rw [if_pos (hlow.mpr h), if_pos h]
  · rw [if_neg (fun hset => h (hlow.mp hset)), if_neg h]

theorem shiftLoop_eq (j : Nat) (crc : BitVec 16) : shiftLoop j crc = shifts poly j crc := by
  induction j generalizing crc with
  | zero => rfl
  | succ j ih => rw [shiftLoop, ih, shiftOnce_eq, shifts]

theorem length_bitsOf (byte : UInt8) : (bitsOf byte).length = 8 := by simp [bitsOf]

theorem spell_bitsOf (byte : UInt8) : spell (bitsOf byte) = wide byte := by
  apply BitVec.eq_of_getLsbD_eq
  intro i hi
  rw [getLsbD_spell, wide, BitVec.getLsbD_setWidth, bitsOf]
  by_cases hbyte : i < 8
  · simp [hbyte]
  · rw [BitVec.getLsbD_of_ge _ _ (by omega), List.getD_eq_default _ _ (by simpa using hbyte)]

theorem crcByte_eq (crc : BitVec 16) (byte : UInt8) :
    crcByte crc byte = run poly crc (bitsOf byte) := by
  rw [run_word poly crc (by rw [length_bitsOf]; omega), spell_bitsOf, length_bitsOf, crcByte,
    shiftLoop_eq]

theorem foldl_crcByte (crc : BitVec 16) (data : List UInt8) :
    data.foldl crcByte crc = run poly crc (serialBits data) := by
  induction data generalizing crc with
  | nil => rfl
  | cons byte data ih =>
    rw [List.foldl_cons, ih, crcByte_eq, serialBits, serialBits, List.flatMap_cons, run_append]

theorem length_serialBits (data : List UInt8) : (serialBits data).length = 8 * data.length := by
  induction data with
  | nil => rfl
  | cons byte data ih =>
    rw [serialBits] at ih
    rw [serialBits, List.flatMap_cons, List.length_append, length_bitsOf, ih, List.length_cons]
    omega

theorem bitsOf_injective {a b : UInt8} (h : bitsOf a = bitsOf b) : a = b := by
  have hbits : a.toBitVec = b.toBitVec := by
    apply BitVec.eq_of_getLsbD_eq
    intro i hi
    have hbit := congrArg (fun l => l[i]?) h
    simpa [bitsOf, hi] using hbit
  exact UInt8.toBitVec_inj.mp hbits

theorem serialBits_injective {a b : List UInt8} (h : serialBits a = serialBits b) : a = b := by
  induction a generalizing b with
  | nil =>
    have hlength := congrArg List.length h
    rw [length_serialBits, length_serialBits, List.length_nil] at hlength
    exact (List.length_eq_zero_iff.mp (by omega)).symm
  | cons x a ih =>
    cases b with
    | nil =>
      have hlength := congrArg List.length h
      rw [length_serialBits, length_serialBits, List.length_cons, List.length_nil] at hlength
      omega
    | cons y b =>
      rw [serialBits, serialBits, List.flatMap_cons, List.flatMap_cons] at h
      have hparts := List.append_inj h (by rw [length_bitsOf, length_bitsOf])
      rw [bitsOf_injective hparts.1, ih hparts.2]

end Register

section Check

theorem wide_or (a b : UInt8) : wide a ||| (wide b <<< 8) = wide a ^^^ (wide b <<< 8) := by
  apply BitVec.eq_of_getLsbD_eq
  intro i hi
  rw [BitVec.getLsbD_or, BitVec.getLsbD_xor, BitVec.getLsbD_shiftLeft, wide,
    BitVec.getLsbD_setWidth]
  by_cases hlow : i < 8
  · simp [hlow]
  · rw [BitVec.getLsbD_of_ge a.toBitVec i (by omega)]
    simp

theorem crcRecv_append (data : List UInt8) (low high : UInt8) :
    crcRecv (data ++ [low, high]) data.length = wide low ||| (wide high <<< 8) := by
  have hlow : (data ++ [low, high]).getD data.length 0 = low := by simp
  have hhigh : (data ++ [low, high]).getD (data.length + 1) 0 = high := by simp
  rw [crcRecv, hlow, hhigh]

theorem crc16_eq_crcRecv_iff {data : List UInt8} {n : Nat} (hlength : data.length = n + 2) :
    crc16 (data.take n) = crcRecv data n ↔ run poly 0xFFFF (serialBits data) = 0 := by
  obtain ⟨low, high, htail⟩ := List.length_eq_two.mp
    (show (data.drop n).length = 2 by rw [List.length_drop]; omega)
  have hdata : data = data.take n ++ [low, high] := by rw [← htail, List.take_append_drop]
  have htake : (data.take n).length = n := by rw [List.length_take]; omega
  have hword : (spell (serialBits [low, high]) : BitVec 16) = crcRecv data n := by
    have hbits : serialBits [low, high] = bitsOf low ++ bitsOf high := by simp [serialBits]
    have hrecv := crcRecv_append (data.take n) low high
    rw [← hdata, htake] at hrecv
    rw [hbits, spell_append, spell_bitsOf, spell_bitsOf, length_bitsOf, hrecv, wide_or]
  have hfold : run poly 0xFFFF (serialBits data) =
      shifts poly 16 (crc16 (data.take n) ^^^ crcRecv data n) := by
    rw [← hword, ← foldl_crcByte]
    conv_lhs => rw [hdata]
    rw [List.foldl_append, foldl_crcByte _ [low, high],
      run_word _ _ (by rw [length_serialBits]; simp), length_serialBits]
    rfl
  rw [hfold]
  constructor
  · intro h
    rw [h, BitVec.xor_self]
    exact shifts_zero poly 16
  · intro h
    rw [← shifts_zero poly 16] at h
    exact BitVec.xor_eq_zero_iff.mp (shifts_injective poly_top 16 h)

theorem crcRecv_crcBytes (data : List UInt8) (crc : BitVec 16) :
    crcRecv (data ++ crcBytes crc) data.length = crc := by
  rw [crcBytes, crcRecv_append, wide, wide]
  apply BitVec.eq_of_getLsbD_eq
  intro i hi
  simp only [BitVec.getLsbD_or, BitVec.getLsbD_setWidth, BitVec.getLsbD_shiftLeft,
    BitVec.getLsbD_ushiftRight]
  by_cases hlow : i < 8
  · simp [hlow, hi]
  · have hsum : 8 + (i - 8) = i := by omega
    rw [hsum]
    simp [hlow, hi, show i - 8 < 8 by omega, show i - 8 < 16 by omega]

theorem crcBytes_crcRecv (data : List UInt8) (low high : UInt8) :
    crcBytes (crcRecv (data ++ [low, high]) data.length) = [low, high] := by
  have hlow : (wide low ||| (wide high <<< 8)).setWidth 8 = low.toBitVec := by
    apply BitVec.eq_of_getLsbD_eq
    intro i hi
    simp [wide, hi]
  have hhigh : ((wide low ||| (wide high <<< 8)) >>> 8).setWidth 8 = high.toBitVec := by
    apply BitVec.eq_of_getLsbD_eq
    intro i hi
    simp [wide, hi, show 8 + i < 16 by omega, show i < 16 by omega]
  rw [crcRecv_append, crcBytes, hlow, hhigh]

end Check

/-- Damage within 16 consecutive bits is noticed, and the reader folds the same checksum. -/
theorem burst_noticed :
    (∀ m y : List UInt8, y.length = (m ++ crcBytes (crc16 m)).length →
      y ≠ m ++ crcBytes (crc16 m) →
      Burst 16 (serialBits (m ++ crcBytes (crc16 m))) (serialBits y) →
      crc16 (y.take m.length) ≠ crcRecv y m.length) ∧
    ∀ hdr data : List UInt8, crcCalc hdr data = crc16 (hdr ++ data) := by
  constructor
  · intro m y hlength hdifferent burst hcheck
    have hsize : (m ++ crcBytes (crc16 m)).length = m.length + 2 := List.length_append
    have hsent : run poly 0xFFFF (serialBits (m ++ crcBytes (crc16 m))) = 0 := by
      apply (crc16_eq_crcRecv_iff hsize).mp
      rw [List.take_left, crcRecv_crcBytes]
    have hread : run poly 0xFFFF (serialBits y) = 0 :=
      (crc16_eq_crcRecv_iff (hlength.trans hsize)).mp hcheck
    have hbits := eq_of_burst poly_top 0xFFFF burst (hsent.trans hread.symm)
    exact hdifferent (serialBits_injective hbits).symm
  · intro hdr data
    rw [crcCalc, crc16, List.foldl_append]

/-- A reply that reports one register, with the value 10 turned into 12 on the way. -/
theorem burst_noticed_register :
    crc16 [1, 3, 2, 0, 12] ≠ crcRecv [1, 3, 2, 0, 12, 0x38, 0x43] 5 := by
  have hsent : crcBytes (crc16 [1, 3, 2, 0, 10]) = [0x38, 0x43] := by decide +kernel
  have hnoticed := burst_noticed.1 [1, 3, 2, 0, 10] [1, 3, 2, 0, 12, 0x38, 0x43]
  rw [hsent] at hnoticed
  apply hnoticed
  · rfl
  · decide
  · exact ⟨serialBits [1, 3, 2, 0], bitsOf 10, bitsOf 12, serialBits [0x38, 0x43], rfl, rfl, rfl,
      by rw [length_bitsOf]; omega⟩

end Evi7688.Azurectl.Crc16
