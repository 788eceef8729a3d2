/- Evi7688/Azureiotd/SerialNumber
   digest: Histories of calls of dps_get_serial_number, whose result lives in a static buffer. -/

import Evi7688.Library.Bytes
import Mathlib.Data.List.Induction

set_option autoImplicit false
set_option relaxedAutoImplicit false

namespace Evi7688.Azureiotd.SerialNumber

open Evi7688.Library.Bytes

/-- What `popen` of the `uci` command yields: nothing if it fails, or the output. -/
abbrev Output := Option (List UInt8)

/-- `fgets(serial_no, 64, fp)` on an output that has bytes, and the cut at the newline. -/
def readSerial (text : List UInt8) : CArray 64 where
  bytes := (fgets 64 text).takeWhile (· != newline)
  nulFree := by
    intro h
    have hstring := List.takeWhile_subset _ h
    rw [fgets] at hstring
    simpa using List.mem_takeWhile_imp hstring
  fits := by
    have hcut := (List.takeWhile_prefix (· != newline) (l := fgets 64 text)).length_le
    have hstring : (fgets 64 text).length ≤ 63 := by
      rw [fgets]
      exact (List.takeWhile_prefix _).length_le.trans (List.length_take_le _ _)
    omega

def usable (serialNo : List UInt8) : Option (List UInt8) :=
  if serialNo.length = 0 ∨ serialNo = ascii "-1" then none else some serialNo

/-- One call: its result, and the static buffer after it. `fgets` leaves the buffer as it is when
there is nothing to read. -/
def dpsGetSerialNumber (output : Output) (serialNo : CArray 64) : Option (List UInt8) × CArray 64 :=
  let serialNo :=
    match output with
    | some (b :: text) => readSerial (b :: text)
    | some [] => serialNo
    | none => serialNo
  (usable serialNo.bytes, serialNo)

def cleared : CArray 64 := .copy 64 (by decide) none

/-- The static buffer after some calls. -/
def after (outputs : List Output) : CArray 64 :=
  outputs.foldl (fun serialNo output => (dpsGetSerialNumber output serialNo).2) cleared

/-- The first line of an output, cut to 63 bytes. A NUL ends it, as it ends every C string. -/
def firstLine (text : List UInt8) : List UInt8 :=
  ((text.takeWhile (· != newline)).take 63).takeWhile (· != 0)

/-- The serial number that an output gives. -/
def serialOf (output : Output) : Option (List UInt8) := output.bind fun text => usable (firstLine text)

/-- Every call of a history answers from its own output. -/
def OwnOutput (outputs : List Output) : Prop :=
  ∀ before output later, outputs = before ++ output :: later →
    (dpsGetSerialNumber output (after before)).1 = serialOf output

/-- A call that reads nothing. -/
def Silent (output : Output) : Prop := output.getD [] = []

instance : DecidablePred Silent := fun output => inferInstanceAs (Decidable (output.getD [] = []))

/-- The serial number of the last output with anything in it. -/
def lastSerial (outputs : List Output) : Option (List UInt8) :=
  (outputs.reverse.find? fun output => !decide (Silent output)).bind serialOf

theorem readSerial_bytes (text : List UInt8) : (readSerial text).bytes = firstLine text := by
  have hread : (text.takeWhile (· != newline)) ++
      (text.drop (text.takeWhile (· != newline)).length).take 1 =
        text.take ((text.takeWhile (· != newline)).length + 1) := by
    rw [List.take_add]
    congr 1
    exact List.prefix_iff_eq_take.mp (List.takeWhile_prefix _)
  have hfgets : fgets 64 text =
      ((text.take ((text.takeWhile (· != newline)).length + 1)).take 63).takeWhile (· != 0) := by
    rw [← hread]
    rfl
  have hswap : ∀ bytes : List UInt8, (bytes.takeWhile (· != 0)).takeWhile (· != newline) =
      (bytes.takeWhile (· != newline)).takeWhile (· != 0) := by
    intro bytes
    rw [List.takeWhile_takeWhile, List.takeWhile_takeWhile]
    simp only [and_comm]
  have hline : (text.take ((text.takeWhile (· != newline)).length + 1)).takeWhile (· != newline) =
      text.takeWhile (· != newline) := by
    rw [← List.take_takeWhile]
    exact List.take_of_length_le (Nat.le_add_right _ 1)
  calc (readSerial text).bytes
      = (((text.take ((text.takeWhile (· != newline)).length + 1)).take 63).takeWhile
          (· != newline)).takeWhile (· != 0) := by
        rw [← hswap, ← hfgets]
        rfl
    _ = firstLine text := by
        rw [← List.take_takeWhile (p := (· != newline)), hline]
        rfl

theorem after_snoc (outputs : List Output) (output : Output) :
    after (outputs ++ [output]) = (dpsGetSerialNumber output (after outputs)).2 := by
  rw [after, List.foldl_append]
  rfl

theorem dpsGetSerialNumber_fst (output : Output) (serialNo : CArray 64) :
    (dpsGetSerialNumber output serialNo).1 =
      if Silent output then usable serialNo.bytes else serialOf output := by
  match output with
  | none => rfl
  | some [] => rfl
  | some (b :: text) =>
    rw [if_neg (by simp [Silent])]
    exact congrArg usable (readSerial_bytes (b :: text))

theorem dpsGetSerialNumber_snd (output : Output) (serialNo : CArray 64) :
    usable (dpsGetSerialNumber output serialNo).2.bytes = (dpsGetSerialNumber output serialNo).1 := rfl

theorem lastSerial_snoc (outputs : List Output) (output : Output) :
    lastSerial (outputs ++ [output]) =
      if Silent output then lastSerial outputs else serialOf output := by
  rw [lastSerial, List.reverse_append, List.reverse_singleton, List.singleton_append,
    List.find?_cons]
  split_ifs with h
  · simp [h, lastSerial]
  · simp [h]

theorem usable_after (outputs : List Output) :
    usable (after outputs).bytes = lastSerial outputs := by
  induction outputs using List.reverseRecOn with
  | nil => rfl
  | append_singleton outputs output ih =>
    rw [after_snoc, dpsGetSerialNumber_snd, dpsGetSerialNumber_fst, ih, lastSerial_snoc]

theorem serialOf_of_silent {output : Output} (h : Silent output) : serialOf output = none := by
  match output with
  | none => rfl
  | some text =>
    obtain rfl : text = [] := h
    rfl

/-- A history answers from its own outputs exactly when no call that reads nothing follows an output
with a serial number. -/
theorem ownOutput_iff (outputs : List Output) :
    OwnOutput outputs ↔
      ∀ before output later, outputs = before ++ output :: later → Silent output →
        lastSerial before = none := by
  constructor
  · intro own before output later hsplit hsilent
    have hresult := own before output later hsplit
    rwa [dpsGetSerialNumber_fst, if_pos hsilent, usable_after, serialOf_of_silent hsilent] at hresult
  · intro fresh before output later hsplit
    rw [dpsGetSerialNumber_fst]
    split_ifs with hsilent
    · rw [usable_after, fresh before output later hsplit hsilent, serialOf_of_silent hsilent]
    · rfl

/-- A command that fails after one that gave a serial number: the old number is returned again. -/
theorem ownOutput_fails : ¬ OwnOutput [some (ascii "SN1\n"), none] := by
  intro own
  have hresult := own [some (ascii "SN1\n")] none [] rfl
  revert hresult
  decide

end Evi7688.Azureiotd.SerialNumber
