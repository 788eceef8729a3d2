/- Evi7688/Libevi/InitLcm
   digest: The boot program that initialises the panel over eight data lines, from any state of it. -/

import Evi7688.Library.CharacterPicture
import Evi7688.Lcdsvc.LcdHw
import Mathlib.Tactic.FinCases

set_option autoImplicit false
set_option relaxedAutoImplicit false

namespace Evi7688.Libevi.InitLcm

open Evi7688.Library.CharacterPanel
open Evi7688.Library.CharacterPicture
open Evi7688.Lcdsvc
open Evi7688.Lcdsvc.LcdHw (Line panelWiring busByte dataLines busEvents settle_busEvents
  busByte_settle)

/-- `GPIO_RS`, `GPIO_RW`, `GPIO_EN` and `GPIO_DB0` to `GPIO_DB7`: the board's lines. -/
def gpio : Line → Nat
  | .rs => 18
  | .rw => 17
  | .en => 37
  | .d 0 => 45
  | .d 1 => 46
  | .d 2 => 0
  | .d 3 => 1
  | .d 4 => 2
  | .d 5 => 3
  | .d 6 => 4
  | .d 7 => 5

local instance eightLines : NeZero 8 := ⟨by decide⟩

inductive GpioOp
  | gpioExport (line : Line)
  | gpioSetDir (line : Line) (isOut : Bool)
  | gpioWrite (line : Line) (value : Bool)
  | usleep (us : Nat)
  deriving DecidableEq

/-- `all_pins`. -/
def allPins : List Line := [.rs, .rw, .en, .d 7, .d 6, .d 5, .d 4, .d 3, .d 2, .d 1, .d 0]

theorem mem_allPins (l : Line) : l ∈ allPins := by
  cases l with
  | d i => fin_cases i <;> decide
  | _ => decide

theorem gpio_injective : Function.Injective gpio := by
  have table : ∀ a ∈ allPins, ∀ b ∈ allPins, gpio a = gpio b → a = b := by decide
  exact fun a b h => table a (mem_allPins a) b (mem_allPins b) h

def setDataBus (v : UInt8) : List GpioOp :=
  [.gpioWrite (.d 7) (v.toNat.testBit 7), .gpioWrite (.d 6) (v.toNat.testBit 6),
    .gpioWrite (.d 5) (v.toNat.testBit 5), .gpioWrite (.d 4) (v.toNat.testBit 4),
    .gpioWrite (.d 3) (v.toNat.testBit 3), .gpioWrite (.d 2) (v.toNat.testBit 2),
    .gpioWrite (.d 1) (v.toNat.testBit 1), .gpioWrite (.d 0) (v.toNat.testBit 0)]

/-- The enable line is raised before the data is on the bus. -/
def writeCmd (v : UInt8) : List GpioOp :=
  [.gpioWrite .rs false, .gpioWrite .rw false, .gpioWrite .en true] ++ setDataBus v ++
    [.gpioWrite .en false]

def setupPins : List GpioOp :=
  allPins.flatMap fun p =>
    [.gpioExport p, .usleep 1000, .gpioSetDir p true, .gpioWrite p false]

def delay100us : List GpioOp := [.usleep 100]

def delay10ms : List GpioOp := [.usleep 10000]

/-- What `main` does after `setup_pins`, which never fails. -/
def initSequence : List GpioOp :=
  writeCmd 0x30 ++ delay100us ++ writeCmd 0x30 ++ delay100us ++ writeCmd 0x0C ++ delay100us ++
    writeCmd 0x01 ++ delay10ms ++ writeCmd 0x06

/-- The writes to the lines; a line that is made an output is low, as the write after it says. -/
def lineWrites (ops : List GpioOp) : List (Line × Bool) :=
  ops.filterMap fun
    | .gpioWrite l v => some (l, v)
    | _ => none

/-- The controller when the pins are set up: an enable line that was left high falls there. -/
def controllerSetUp (history : List Pulse) (level : Line → Bool) : Controller :=
  (Controller.powerOn.pulses history).pulses (sample panelWiring level (lineWrites setupPins))

def controllerAfter (history : List Pulse) (level : Line → Bool) : Controller :=
  (Controller.powerOn.pulses history).pulses
    (sample panelWiring level (lineWrites (setupPins ++ initSequence)))

section Sampling

theorem lineWrites_append (a b : List GpioOp) :
    lineWrites (a ++ b) = lineWrites a ++ lineWrites b :=
  List.filterMap_append

theorem settle_setDataBus (level : Line → Bool) (v : UInt8) (i : Fin 8) :
    settle level (lineWrites (setDataBus v)) (.d i) = v.toNat.testBit i := by
  fin_cases i <;> simp [settle, lineWrites, setDataBus, Function.update]

theorem busByte_setDataBus (level : Line → Bool) (v : UInt8) :
    busByte (settle level (lineWrites (setDataBus v))) = v := by
  have hsame : busByte (settle level (lineWrites (setDataBus v))) =
      busByte (settle level (LcdHw.lineWrites (busEvents v dataLines))) := by
    have hbits : ∀ i : Fin 8, settle level (LcdHw.lineWrites (busEvents v dataLines)) (.d i) =
        v.toNat.testBit i := fun i => (settle_busEvents level v dataLines (.d i)).trans
      (if_pos (List.mem_finRange i))
    simp only [busByte, settle_setDataBus, hbits]
  rw [hsame, busByte_settle]

theorem sample_writeCmd (level : Line → Bool) (v : UInt8) :
    sample panelWiring level (lineWrites (writeCmd v)) = [instruction v] := by
  have hsplit : lineWrites (writeCmd v) =
      [(.rs, false), (.rw, false)] ++
        ((.en, true) :: (lineWrites (setDataBus v) ++ [(.en, false)])) := by
    simp only [writeCmd, lineWrites_append]
    rfl
  have hdata : ∀ x ∈ lineWrites (setDataBus v), x.1 ≠ panelWiring.en := by
    simp [lineWrites, setDataBus, panelWiring]
  set level' := Function.update (settle level [(Line.rs, false), (.rw, false)]) .en true
  have hrs : settle level' (lineWrites (setDataBus v)) .rs = false := by
    simp [settle, lineWrites, setDataBus, Function.update, level']
  have hen : settle level' (lineWrites (setDataBus v)) .en = true := by
    simp [settle, lineWrites, setDataBus, Function.update, level']
  have hlatch : sample panelWiring (settle level' (lineWrites (setDataBus v))) [(.en, false)] =
      [instruction v] := by
    simp [sample, panelWiring, hen, hrs, busByte_setDataBus, instruction]
  have hraise : sample panelWiring (settle level [(Line.rs, false), (.rw, false)])
      ((.en, true) :: (lineWrites (setDataBus v) ++ [(.en, false)])) =
        sample panelWiring level' (lineWrites (setDataBus v) ++ [(.en, false)]) := by
    simp [sample, level']
  rw [hsplit, sample_append, sample_quiet _ _ (by decide), List.nil_append, hraise, sample_append,
    sample_quiet _ _ hdata, List.nil_append, hlatch]

theorem sample_initSequence (level : Line → Bool) :
    sample panelWiring level (lineWrites initSequence) = bytes [0x30, 0x30, 0x0C, 0x01, 0x06] := by
  have hpause : lineWrites delay100us = [] := rfl
  have hlong : lineWrites delay10ms = [] := rfl
  simp only [initSequence, lineWrites_append, hpause, hlong, List.append_nil, sample_append,
    sample_writeCmd]
  rfl

theorem controllerAfter_eq (history : List Pulse) (level : Line → Bool) :
    controllerAfter history level =
      (controllerSetUp history level).pulses (bytes [0x30, 0x30, 0x0C, 0x01, 0x06]) := by
  rw [controllerAfter, lineWrites_append, sample_append, sample_initSequence,
    Controller.pulses_append]
  rfl

end Sampling

section Switch

variable {beside : Bool → Fin 128 → Fin 128}

theorem pending_upper {c : Controller} (h : ∀ high, c.pending = some high → high &&& 0x0F = 0)
    (ps : List Pulse) : ∀ high, (c.pulses ps).pending = some high → high &&& 0x0F = 0 := by
  induction ps generalizing c with
  | nil => exact h
  | cons p ps ih =>
    apply ih
    intro high hpending
    have table : ∀ n : Fin 256, UInt8.ofNat n.val &&& (0xF0 : UInt8) &&& 0x0F = 0 := by
      decide +kernel
    have hmask : p.bus &&& 0xF0 &&& 0x0F = 0 := by simpa using table ⟨p.bus.toNat, p.bus.toNat_lt⟩
    unfold Controller.pulse at hpending
    split_ifs at hpending with hwidth
    · cases hpending
    · split at hpending
      · obtain rfl := Option.some.inj hpending
        exact hmask
      · cases hpending

theorem receive_on {v : UInt8} (h : v.toNat.testBit 3 = false) (d : Picture) :
    (d.receive beside (instruction v)).on = d.on := by
  grind [Picture.receive, instruction]

theorem receive_clear_entry (d : Picture) :
    [instruction 0x01, instruction 0x06].foldl (Picture.receive beside) d =
      { Picture.fresh with on := d.on } := by
  simp [instruction, Picture.receive, Picture.fresh, Nat.testBit]

theorem upper_three_low {high : UInt8} (h : high &&& 0x0F = 0) :
    (high ||| 0x03).toNat.testBit 3 = false := by
  have table : ∀ n : Fin 256, UInt8.ofNat n.val &&& (0x0F : UInt8) = 0 →
      (UInt8.ofNat n.val ||| (0x03 : UInt8)).toNat.testBit 3 = false := by
    decide +kernel
  have hhigh := table ⟨high.toNat, high.toNat_lt⟩
  simp only [UInt8.ofNat_toNat] at hhigh
  exact hhigh h

end Switch

/-- Whatever the panel was sent before, `initlcm` leaves it cleared and in step with eight data
lines; but the display is switched on only if it was on already, or the program does not find half a
byte read whose upper half is another than 3. -/
theorem initlcm_leaves (beside : Bool → Fin 128 → Fin 128) (start : Picture) (history : List Pulse)
    (level : Line → Bool) :
    (controllerAfter history level).eightBit = true ∧
      (controllerAfter history level).pending = none ∧
      ∃ on, picture beside start (controllerAfter history level) = { Picture.fresh with on := on } ∧
        (on = true ↔ ¬ Midway (controllerSetUp history level) ∨
          (picture beside start (controllerSetUp history level)).on = true) := by
  rw [controllerAfter_eq]
  set c := controllerSetUp history level with hc
  have hupper : ∀ high, c.pending = some high → high &&& 0x0F = 0 := by
    rw [hc, controllerSetUp, ← Controller.pulses_append]
    exact pending_upper (fun high hnone => by cases hnone) _
  by_cases h : Midway c
  · obtain ⟨high, hpending, hpulses⟩ := functionSets_midway h (v := 0x0C) rfl
    have hsplit : bytes [0x30, 0x30, 0x0C, 0x01, 0x06] =
        bytes [0x30, 0x30, 0x0C] ++ bytes [0x01, 0x06] := rfl
    have hrest : ∀ p ∈ bytes [0x01, 0x06], p.rs = false → ¬ Narrows p.bus := by decide
    rw [hsplit, Controller.pulses_append, hpulses, pulses_wide hrest]
    refine ⟨rfl, rfl, _, (picture_mk start _ _ _ _).trans (receive_clear_entry _), ?_⟩
    have hsame : (([instruction (high ||| 0x03), instruction 0x30].foldl
        (Picture.receive beside) (picture beside start c))).on = (picture beside start c).on := by
      rw [List.foldl_cons, List.foldl_cons, List.foldl_nil, receive_on (by decide),
        receive_on (upper_three_low (hupper high hpending))]
    rw [List.foldl_append]
    exact ⟨fun hon => Or.inr (hsame.symm.trans hon),
      fun hon => (hon.resolve_left (fun hnot => hnot h)) ▸ hsame⟩
  · obtain ⟨more, hmore⟩ := functionSets_wide h
    have hsplit : bytes [0x30, 0x30, 0x0C, 0x01, 0x06] =
        bytes [0x30, 0x30] ++ bytes [0x0C, 0x01, 0x06] := rfl
    have hrest : ∀ p ∈ bytes [0x0C, 0x01, 0x06], p.rs = false → ¬ Narrows p.bus := by decide
    have hreset : ∀ d, (bytes [0x0C, 0x01, 0x06]).foldl (Picture.receive beside) d = .fresh := by
      intro d
      simp [bytes, instruction, Picture.receive, Picture.fresh, Nat.testBit]
    rw [hsplit, Controller.pulses_append, hmore, pulses_wide hrest]
    refine ⟨rfl, rfl, true, (picture_mk start _ _ _ _).trans (hreset _), ?_⟩
    exact ⟨fun _ => Or.inl h, fun _ => rfl⟩

end Evi7688.Libevi.InitLcm
