/- Evi7688/Libevi/Hal
   digest: The HAL of the caption library: nibbles on four data lines of the SoC, and how the panel sees them. -/

import Evi7688.Library.Bytes
import Evi7688.Library.CharacterPanel

set_option autoImplicit false
set_option relaxedAutoImplicit false

namespace Evi7688.Libevi.Hal

open Evi7688.Library.Bytes (CString)
open Evi7688.Library.CharacterPanel

/-- The GPIO lines of `evi_hal_gpio_conf.h`. `EVI_GPIO_RW` is -1: the line is tied to ground. -/
inductive Gpio
  | rs | en | d4 | d5 | d6 | d7
  deriving DecidableEq

def Gpio.number : Gpio → Int
  | .rs => 18
  | .en => 37
  | .d4 => 2
  | .d5 => 3
  | .d6 => 4
  | .d7 => 5

theorem Gpio.number_injective : Function.Injective Gpio.number := by
  intro a b h
  cases a <;> cases b <;> first | rfl | cases h

inductive GpioOp
  | gpioExport (gpio : Gpio)
  | gpioSetDir (gpio : Gpio) (isOut : Bool)
  | write (gpio : Gpio) (value : Bool)
  | usleep (us : Nat)
  deriving DecidableEq

def setN (n : Nat) : List GpioOp :=
  [.write .d4 (n.testBit 0), .write .d5 (n.testBit 1), .write .d6 (n.testBit 2),
    .write .d7 (n.testBit 3)]

def pulse : List GpioOp := [.write .en true, .usleep 1, .write .en false, .usleep 1]

def w4 (n : Nat) (rs : Bool) : List GpioOp :=
  [.write .rs rs] ++ setN (n &&& 0xF) ++ pulse ++ [.usleep 40]

def w8 (v : UInt8) (rs : Bool) : List GpioOp :=
  w4 ((v.toNat >>> 4) &&& 0xF) rs ++ w4 (v.toNat &&& 0xF) rs

/-- The steps the HAL is written in, between the GPIO operations and the public functions. -/
inductive BusOp
  | gpioExport (gpio : Gpio)
  | gpioSetDir (gpio : Gpio) (isOut : Bool)
  | usleep (us : Nat)
  | w4 (n : Nat) (rs : Bool)
  | w8 (v : UInt8) (rs : Bool)
  deriving DecidableEq

def BusOp.gpioOps : BusOp → List GpioOp
  | .gpioExport gpio => [.gpioExport gpio]
  | .gpioSetDir gpio isOut => [.gpioSetDir gpio isOut]
  | .usleep us => [.usleep us]
  | .w4 n rs => Hal.w4 n rs
  | .w8 v rs => Hal.w8 v rs

/-- The flag `inited` and the steps issued since power-on. -/
structure HalState where
  inited : Bool
  bus : List BusOp

def HalState.powerOn : HalState := ⟨false, []⟩

def ensureOps : List BusOp :=
  [.gpioExport .rs, .gpioExport .en, .gpioExport .d4, .gpioExport .d5, .gpioExport .d6, .gpioExport .d7,
    .gpioSetDir .rs true, .gpioSetDir .en true, .gpioSetDir .d4 true, .gpioSetDir .d5 true, .gpioSetDir .d6 true,
    .gpioSetDir .d7 true,
    .usleep 15000,
    .w4 0x03 false, .usleep 4500, .w4 0x03 false, .usleep 150, .w4 0x03 false, .usleep 150,
    .w4 0x02 false, .usleep 150,
    .w8 0x28 false, .w8 0x08 false, .w8 0x01 false, .usleep 1600, .w8 0x06 false, .w8 0x0C false]

def ensure (h : HalState) : HalState := if h.inited then h else ⟨true, h.bus ++ ensureOps⟩

def HalState.emit (h : HalState) (ops : List BusOp) : HalState := { h with bus := h.bus ++ ops }

def halWriteInstr (c : UInt8) (h : HalState) : HalState := (ensure h).emit [.w8 c false]

def halWriteLetters (s : Option CString) (h : HalState) : HalState :=
  match s with
  | none => ensure h
  | some s => (ensure h).emit (s.bytes.map fun p => .w8 p true)

def halWriteGraphic (c : UInt8) (h : HalState) : HalState := (ensure h).emit [.w8 c true]

def halDelayUs (us : Nat) (h : HalState) : HalState := h.emit [.usleep us]

def halMoveDdram (a : UInt8) (h : HalState) : HalState := halWriteInstr (0x80 ||| (a &&& 0x7F)) h

inductive HalOp
  | writeInstr (code : UInt8)
  | writeLetters (text : Option CString)
  | writeGraphic (code : UInt8)
  | delayUs (us : Nat)
  | moveDdram (addr : UInt8)
  deriving DecidableEq

def HalOp.perform : HalOp → HalState → HalState
  | .writeInstr code => halWriteInstr code
  | .writeLetters text => halWriteLetters text
  | .writeGraphic code => halWriteGraphic code
  | .delayUs us => halDelayUs us
  | .moveDdram addr => halMoveDdram addr

def HalState.performs (h : HalState) (ops : List HalOp) : HalState := ops.foldl (fun h op => op.perform h) h

def HalOp.busOps : HalOp → List BusOp
  | .writeInstr code => [.w8 code false]
  | .writeLetters none => []
  | .writeLetters (some s) => s.bytes.map fun p => .w8 p true
  | .writeGraphic code => [.w8 code true]
  | .delayUs us => [.usleep us]
  | .moveDdram addr => [.w8 (0x80 ||| (addr &&& 0x7F)) false]

@[simp] theorem HalState.performs_nil (h : HalState) : h.performs [] = h := rfl

theorem ensure_of_inited {h : HalState} (hin : h.inited = true) : ensure h = h := if_pos hin

theorem perform_of_inited (op : HalOp) {h : HalState} (hin : h.inited = true) :
    op.perform h = h.emit op.busOps := by
  cases op with
  | writeLetters text =>
    cases text with
    | none => simp [HalOp.perform, halWriteLetters, ensure_of_inited hin, HalOp.busOps, HalState.emit]
    | some s => simp [HalOp.perform, halWriteLetters, ensure_of_inited hin, HalOp.busOps]
  | delayUs us => rfl
  | _ =>
    simp only [HalOp.perform, halMoveDdram, halWriteInstr, halWriteGraphic, ensure_of_inited hin,
      HalOp.busOps]

theorem performs_of_inited (ops : List HalOp) {h : HalState} (hin : h.inited = true) :
    h.performs ops = h.emit (ops.flatMap HalOp.busOps) := by
  induction ops generalizing h with
  | nil => simp [HalState.emit]
  | cons op ops ih =>
    have hstep : h.performs (op :: ops) = (h.emit op.busOps).performs ops := by
      rw [← perform_of_inited op hin]
      rfl
    rw [hstep, ih (by exact hin)]
    simp [HalState.emit, List.append_assoc]

theorem performs_writeInstr_powerOn (c : UInt8) (ops : List HalOp) :
    HalState.powerOn.performs (.writeInstr c :: ops) =
      ⟨true, ensureOps ++ (HalOp.writeInstr c :: ops).flatMap HalOp.busOps⟩ := by
  have hfirst : HalState.powerOn.performs (.writeInstr c :: ops) =
      (HalState.mk true (ensureOps ++ [.w8 c false])).performs ops := rfl
  rw [hfirst, performs_of_inited ops rfl]
  simp [HalState.emit, HalOp.busOps]

def gpioWrites (ops : List GpioOp) : List (Gpio × Bool) :=
  ops.filterMap fun
    | .write gpio value => some (gpio, value)
    | _ => none

/-- The panel's bus: the four data lines on its upper half, and on the lower half, which no line
drives, whatever `low` has there. -/
def busByte (low : UInt8) (level : Gpio → Bool) : UInt8 :=
  UInt8.ofNat ((level .d4).toNat * 16 + (level .d5).toNat * 32 + (level .d6).toNat * 64 +
    (level .d7).toNat * 128) ||| (low &&& 0x0F)

def panelWiring (low : UInt8) : Wiring Gpio := ⟨.rs, .en, busByte low⟩

def BusOp.writes (op : BusOp) : List (Gpio × Bool) := gpioWrites op.gpioOps

def pulsesOf (low : UInt8) (bus : List BusOp) : List Pulse :=
  sample (panelWiring low) (fun _ => false) (bus.flatMap BusOp.writes)

def controllerAfter (low : UInt8) (bus : List BusOp) : Controller :=
  Controller.powerOn.pulses (pulsesOf low bus)

def nibblePulse (low : UInt8) (n : Nat) (rs : Bool) : Pulse :=
  ⟨rs, UInt8.ofNat (n % 16 * 16) ||| (low &&& 0x0F)⟩

def BusOp.pulses (low : UInt8) : BusOp → List Pulse
  | .w4 n rs => [nibblePulse low n rs]
  | .w8 v rs => [nibblePulse low (v.toNat / 16) rs, nibblePulse low v.toNat rs]
  | _ => []

theorem gpioWrites_append (a b : List GpioOp) :
    gpioWrites (a ++ b) = gpioWrites a ++ gpioWrites b :=
  List.filterMap_append

theorem sample_w4 (low : UInt8) (level : Gpio → Bool) (n : Nat) (rs : Bool) :
    sample (panelWiring low) level (gpioWrites (w4 n rs)) = [nibblePulse low n rs] := by
  have hmask : n &&& 0xF = n % 16 := Nat.and_two_pow_sub_one_eq_mod n 4
  have table : ∀ m : Fin 16, UInt8.ofNat ((m.val.testBit 0).toNat * 16 +
      (m.val.testBit 1).toNat * 32 + (m.val.testBit 2).toNat * 64 +
      (m.val.testBit 3).toNat * 128) = UInt8.ofNat (m.val * 16) := by
    decide
  have hspelled := table ⟨n % 16, Nat.mod_lt n (by decide)⟩
  have hwrites : gpioWrites (w4 n rs) =
      ((.rs, rs) :: gpioWrites (setN (n % 16))) ++ [(.en, true), (.en, false)] := by
    rw [w4, hmask]
    rfl
  have hquiet : ∀ x ∈ (Gpio.rs, rs) :: gpioWrites (setN (n % 16)), x.1 ≠ (panelWiring low).en := by
    simp [setN, gpioWrites, panelWiring]
  have hstrobe := sample_strobe (panelWiring low)
    (settle level ((Gpio.rs, rs) :: gpioWrites (setN (n % 16)))) (by simp [panelWiring])
    (by intro lv v; simp [panelWiring, busByte, Function.update])
  rw [hwrites, sample_append, sample_quiet _ _ hquiet, List.nil_append]
  apply hstrobe.trans
  simp only [nibblePulse, ← hspelled]
  simp [panelWiring, busByte, settle, setN, gpioWrites, Function.update]

theorem sample_busOp (low : UInt8) (level : Gpio → Bool) (op : BusOp) :
    sample (panelWiring low) level op.writes = op.pulses low := by
  cases op with
  | w4 n rs => exact sample_w4 low level n rs
  | w8 v rs =>
    have hhigh : nibblePulse low ((v.toNat >>> 4) &&& 0xF) rs =
        nibblePulse low (v.toNat / 16) rs := by
      rw [Nat.shiftRight_eq_div_pow, show (0xF : Nat) = 2 ^ 4 - 1 from rfl,
        Nat.and_two_pow_sub_one_eq_mod]
      simp [nibblePulse]
    have hlow : nibblePulse low (v.toNat &&& 0xF) rs = nibblePulse low v.toNat rs := by
      rw [show (0xF : Nat) = 2 ^ 4 - 1 from rfl, Nat.and_two_pow_sub_one_eq_mod]
      simp [nibblePulse]
    simp only [BusOp.writes, BusOp.gpioOps, w8, gpioWrites_append, sample_append, sample_w4,
      hhigh, hlow]
    rfl
  | _ => rfl

theorem sample_bus (low : UInt8) (level : Gpio → Bool) (bus : List BusOp) :
    sample (panelWiring low) level (bus.flatMap BusOp.writes) =
      bus.flatMap (BusOp.pulses low) := by
  induction bus generalizing level with
  | nil => rfl
  | cons op bus ih => rw [List.flatMap_cons, List.flatMap_cons, sample_append, sample_busOp, ih]

theorem controllerAfter_append (low : UInt8) (a b : List BusOp) :
    controllerAfter low (a ++ b) =
      (controllerAfter low a).pulses (b.flatMap (BusOp.pulses low)) := by
  simp only [controllerAfter, pulsesOf, sample_bus]
  rw [List.flatMap_append, Controller.pulses_append]

end Evi7688.Libevi.Hal
