/- Evi7688/Library/Modbus
   digest: A Modbus RTU device that answers requests for holding registers. -/

import Mathlib.Data.List.Basic
import Mathlib.Tactic.Common

set_option autoImplicit false
set_option relaxedAutoImplicit false

namespace Evi7688.Library.Modbus

/-- The holding registers a device has, by address. -/
abbrev Registers := Nat → Option UInt16

def bigEndian (v : UInt16) : List UInt8 := [(v >>> 8).toUInt8, v.toUInt8]

def word (high low : UInt8) : Nat := 256 * high.toNat + low.toNat

/-- So many registers from an address on, if the device has them all. -/
def readings (regs : Registers) : Nat → Nat → Option (List UInt16)
  | _, 0 => some []
  | addr, count + 1 =>
    (regs addr).bind fun v => (readings regs (addr + 1) count).map fun values => v :: values

/-- The reply of a device without its checksum: the registers, or why there are none. -/
def reply (regs : Registers) (id function : UInt8) (addr count : Nat) : List UInt8 :=
  if function ≠ 0x03 then [id, function ||| 0x80, 0x01]
  else if count = 0 ∨ 125 < count then [id, 0x83, 0x03]
  else
    match readings regs addr count with
    | none => [id, 0x83, 0x02]
    | some values => [id, 0x03, UInt8.ofNat (2 * count)] ++ values.flatMap bigEndian

/-- A device answers a frame of eight bytes that is for it and has the right checksum, and keeps
quiet otherwise. -/
def serve (sum : List UInt8 → List UInt8) (regs : Registers) (id : UInt8) (heard : List UInt8) :
    Option (List UInt8) :=
  match heard with
  | [target, function, addrHigh, addrLow, countHigh, countLow, low, high] =>
    if target = id ∧
        sum [target, function, addrHigh, addrLow, countHigh, countLow] = [low, high] then
      let body := reply regs id function (word addrHigh addrLow) (word countHigh countLow)
      some (body ++ sum body)
    else none
  | _ => none

theorem length_flatMap_bigEndian (values : List UInt16) :
    (values.flatMap bigEndian).length = 2 * values.length := by
  induction values with
  | nil => rfl
  | cons v values ih =>
    rw [List.flatMap_cons, List.length_append, ih, List.length_cons, bigEndian, List.length_cons,
      List.length_singleton]
    omega

theorem length_readings {regs : Registers} {addr count : Nat} {values : List UInt16}
    (h : readings regs addr count = some values) : values.length = count := by
  induction count generalizing addr values with
  | zero =>
    obtain rfl := Option.some.inj h
    rfl
  | succ count ih =>
    obtain ⟨v, -, hrest⟩ := Option.bind_eq_some_iff.mp h
    obtain ⟨more, hmore, rfl⟩ := Option.map_eq_some_iff.mp hrest
    rw [List.length_cons, ih hmore]

theorem word_bigEndian (v : UInt16) : word (v >>> 8).toUInt8 v.toUInt8 = v.toNat := by
  have hv := v.toNat_lt
  simp only [word, UInt16.toNat_toUInt8, UInt16.toNat_shiftRight]
  have hshift : v.toNat >>> ((8 : UInt16).toNat % 16) = v.toNat / 256 :=
    Nat.shiftRight_eq_div_pow _ 8
  rw [hshift]
  omega

theorem exists_request_of_serve {sum : List UInt8 → List UInt8} {regs : Registers} {id : UInt8}
    {heard answer : List UInt8} (h : serve sum regs id heard = some answer) :
    ∃ function addrHigh addrLow countHigh countLow,
      heard = [id, function, addrHigh, addrLow, countHigh, countLow] ++
        sum [id, function, addrHigh, addrLow, countHigh, countLow] ∧
      answer = reply regs id function (word addrHigh addrLow) (word countHigh countLow) ++
        sum (reply regs id function (word addrHigh addrLow) (word countHigh countLow)) := by
  unfold serve at h
  split at h
  · split_ifs at h with hsum
    obtain ⟨rfl, hsum⟩ := hsum
    exact ⟨_, _, _, _, _, by rw [hsum]; rfl, (Option.some.inj h).symm⟩
  · cases h

end Evi7688.Library.Modbus
