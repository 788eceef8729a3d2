/- Evi7688/Azurectl/MeterBus
   digest: The register reader with meters at the other end of a line that damages messages. -/

import Evi7688.Azurectl.ModbusRtu
import Evi7688.Library.Modbus

set_option autoImplicit false
set_option relaxedAutoImplicit false

namespace Evi7688.Azurectl.MeterBus

open Evi7688.Library.Modbus
open Evi7688.Library.ShiftRegister
open Crc16
open ModbusRtu (Line frame mbReadHoldingRegs mbReadHoldingRegs_frame exists_frame)

/-- The meters on the line by their address. -/
abbrev Bus := UInt8 → Option Registers

def checksum (body : List UInt8) : List UInt8 := crcBytes (crc16 body)

/-- What arrives of a message: the message, or as many bytes with damage within 16 bits. -/
def Disturbed (sent heard : List UInt8) : Prop :=
  heard = sent ∨ heard.length = sent.length ∧ Burst 16 (serialBits sent) (serialBits heard)

/-- What comes back on a request, if anything does: a meter answers what it hears of it, and the
answer is disturbed in its turn. -/
def Carried (bus : Bus) (req stream : List UInt8) : Prop :=
  stream ≠ [] → ∃ id regs heard answer, bus id = some regs ∧ Disturbed req heard ∧
    serve checksum regs id heard = some answer ∧ Disturbed answer stream

section Checksum

theorem run_sealed (body : List UInt8) :
    run poly 0xFFFF (serialBits (body ++ checksum body)) = 0 := by
  have hlength : (body ++ checksum body).length = body.length + 2 := List.length_append
  apply (crc16_eq_crcRecv_iff hlength).mp
  rw [List.take_left, checksum, crcRecv_crcBytes]

/-- Damage never turns one sealed message into another. -/
theorem eq_of_disturbed {sent heard : List UInt8}
    (h : Disturbed (sent ++ checksum sent) (heard ++ checksum heard)) : heard = sent := by
  have hbits : heard ++ checksum heard = sent ++ checksum sent := by
    rcases h with hsame | ⟨-, hburst⟩
    · exact hsame
    · have hequal := eq_of_burst poly_top 0xFFFF hburst
        ((run_sealed sent).trans (run_sealed heard).symm)
      exact (serialBits_injective hequal).symm
  exact List.append_inj_left' hbits rfl

theorem request_sealed (id : UInt8) (addr count : UInt16) :
    ModbusRtu.request id addr count =
      [id, 0x03, (addr >>> 8).toUInt8, addr.toUInt8, (count >>> 8).toUInt8, count.toUInt8] ++
        checksum [id, 0x03, (addr >>> 8).toUInt8, addr.toUInt8, (count >>> 8).toUInt8,
          count.toUInt8] := rfl

theorem frame_sealed (id : UInt8) (data : List UInt8) :
    frame id data = ([id, 0x03, UInt8.ofNat data.length] ++ data) ++
      checksum ([id, 0x03, UInt8.ofNat data.length] ++ data) := rfl

end Checksum

section Bus

variable {bus : Bus} {id : UInt8} {addr count : UInt16} {stream : List UInt8}

theorem answer_of_carried (h : Carried bus (ModbusRtu.request id addr count) stream)
    (nonempty : stream ≠ []) :
    ∃ regs, bus id = some regs ∧
      Disturbed (reply regs id 0x03 addr.toNat count.toNat ++
        checksum (reply regs id 0x03 addr.toNat count.toNat)) stream := by
  obtain ⟨meter, regs, heard, answer, hmeter, hheard, hserve, hanswer⟩ := h nonempty
  obtain ⟨function, addrHigh, addrLow, countHigh, countLow, rfl, rfl⟩ :=
    exists_request_of_serve hserve
  rw [request_sealed] at hheard
  have hsame := eq_of_disturbed hheard
  simp only [List.cons.injEq, and_true] at hsame
  obtain ⟨rfl, rfl, rfl, rfl, rfl, rfl⟩ := hsame
  rw [word_bigEndian, word_bigEndian] at hanswer
  exact ⟨regs, hmeter, hanswer⟩

theorem reply_cases (regs : Registers) (id : UInt8) (addr count : Nat) :
    (∃ function code, reply regs id 0x03 addr count = [id, function, code] ∧ function ≠ 0x03) ∨
      ∃ values, readings regs addr count = some values ∧ count ≤ 125 ∧
        reply regs id 0x03 addr count =
          [id, 0x03, UInt8.ofNat (2 * count)] ++ values.flatMap bigEndian := by
  unfold reply
  rw [if_neg (by decide)]
  split_ifs with hcount
  · exact Or.inl ⟨0x83, 0x03, rfl, by decide⟩
  · cases hread : readings regs addr count with
    | none => exact Or.inl ⟨0x83, 0x02, rfl, by decide⟩
    | some values => exact Or.inr ⟨values, rfl, by omega, rfl⟩

theorem length_of_disturbed {sent heard : List UInt8} (h : Disturbed sent heard) :
    heard.length = sent.length := by
  rcases h with rfl | ⟨hlength, -⟩
  · rfl
  · exact hlength

theorem length_frame (id : UInt8) (data : List UInt8) :
    (frame id data).length = data.length + 5 := by
  rw [frame_sealed]
  simp only [List.length_append, List.length_cons, List.length_nil, checksum, crcBytes]
  omega

theorem data_of_disturbed {regs : Registers} {id : UInt8} {addr count : Nat}
    {data tail : List UInt8}
    (h : Disturbed (reply regs id 0x03 addr count ++ checksum (reply regs id 0x03 addr count))
      (frame id data ++ tail)) :
    ∃ values, readings regs addr count = some values ∧ data.length ≤ 2 * count ∧
      (data.length = 2 * count → data = values.flatMap bigEndian) := by
  have hlength := length_of_disturbed h
  rw [List.length_append, List.length_append, length_frame] at hlength
  have hchecksum : (checksum (reply regs id 0x03 addr count)).length = 2 := rfl
  rcases reply_cases regs id addr count with
    ⟨function, code, hreply, hfunction⟩ | ⟨values, hvalues, -, hreply⟩
  · have hthree : (reply regs id 0x03 addr count).length = 3 := by rw [hreply]; rfl
    obtain rfl : tail = [] := List.length_eq_zero_iff.mp (by omega)
    rw [List.append_nil, frame_sealed] at h
    have hsame := eq_of_disturbed h
    rw [hreply] at hsame
    exact absurd (List.cons.inj (List.cons.inj hsame).2).1.symm hfunction
  · have hread := length_readings hvalues
    have hmany : (reply regs id 0x03 addr count).length = 2 * count + 3 := by
      rw [hreply, List.length_append, length_flatMap_bigEndian, hread]
      exact Nat.add_comm _ _
    refine ⟨values, hvalues, by omega, fun expected => ?_⟩
    obtain rfl : tail = [] := List.length_eq_zero_iff.mp (by omega)
    rw [List.append_nil, frame_sealed] at h
    have hsame := eq_of_disturbed h
    rw [hreply] at hsame
    exact (List.append_inj hsame rfl).2

end Bus

section Reading

variable {bus : Bus} {line : Line} (id : UInt8) (addr count : UInt16) (out : Nat → UInt8)
  (outcap outn : Nat)

/-- Whatever the line does to a request and to its answer within 16 bits each, and however the
answer arrives: what a successful read stores comes from the meter that was asked, which has all
the registers, and it is these if it is as many. -/
theorem read_intact (carried : Carried bus (ModbusRtu.request id addr count) line.stream)
    (success : (mbReadHoldingRegs line id addr count out outcap outn).result = 0) :
    ∃ regs values, bus id = some regs ∧ readings regs addr.toNat count.toNat = some values ∧
      (mbReadHoldingRegs line id addr count out outcap outn).outn ≤ 2 * count.toNat ∧
      ((mbReadHoldingRegs line id addr count out outcap outn).outn = 2 * count.toNat →
        (List.range (2 * count.toNat)).map
          (mbReadHoldingRegs line id addr count out outcap outn).out =
            values.flatMap bigEndian) := by
  obtain ⟨data, tail, hstream, hshort, hroom, hdelivers⟩ :=
    exists_frame addr count out outcap outn success
  rw [mbReadHoldingRegs_frame addr count out outcap outn hstream hshort hroom hdelivers]
  have hsome : line.stream ≠ [] := by
    rw [hstream, frame_sealed]
    exact List.cons_ne_nil _ _
  obtain ⟨regs, hmeter, hanswer⟩ := answer_of_carried carried hsome
  rw [hstream] at hanswer
  obtain ⟨values, hvalues, hatMost, hdata⟩ := data_of_disturbed hanswer
  refine ⟨regs, values, hmeter, hvalues, hatMost, fun expected => ?_⟩
  rw [← hdata expected, ← expected]
  exact ModbusRtu.range_map_store out _ _

end Reading

/-- A meter at address 1 with two registers. -/
def twoRegisters : Bus := fun id =>
  if id = 1 then some fun addr => [10, 20][addr]? else none

/-- Its answer to a request for both, as it arrives for each read. -/
def undisturbed : Line := ⟨3, 8, frame 1 [0, 10, 0, 20], fun _ => some 9⟩

theorem carried_undisturbed :
    Carried twoRegisters (ModbusRtu.request 1 0 2) undisturbed.stream := fun _ =>
  ⟨1, fun addr => [10, 20][addr]?, ModbusRtu.request 1 0 2, frame 1 [0, 10, 0, 20], rfl,
    Or.inl rfl, by decide +kernel, Or.inl rfl⟩

theorem read_intact_two_registers :
    ∃ regs values, twoRegisters 1 = some regs ∧ readings regs 0 2 = some values ∧
      (mbReadHoldingRegs undisturbed 1 0 2 (fun _ => 0) 16 0).outn ≤ 4 ∧
      ((mbReadHoldingRegs undisturbed 1 0 2 (fun _ => 0) 16 0).outn = 4 →
        (List.range 4).map (mbReadHoldingRegs undisturbed 1 0 2 (fun _ => 0) 16 0).out =
          values.flatMap bigEndian) :=
  read_intact 1 0 2 (fun _ => 0) 16 0 carried_undisturbed (by decide +kernel)

end Evi7688.Azurectl.MeterBus
