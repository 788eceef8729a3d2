/- Evi7688/Libevi/HalTrace
   digest: The GPIO trace of any sequence of HAL calls, decoded back to the bytes that were asked for. -/

import Evi7688.Libevi.Hal

set_option autoImplicit false
set_option relaxedAutoImplicit false

namespace Evi7688.Libevi.HalTrace

open Evi7688.Library.Bytes (toNat_lower)
open Evi7688.Library.CharacterPanel
open Hal

/-- The bytes a call asks for: RS = 0 for instructions and addresses, RS = 1 for characters and
graphics. -/
def requested : HalOp → List Pulse
  | .writeInstr code => [⟨false, code⟩]
  | .writeLetters none => []
  | .writeLetters (some s) => s.bytes.map fun p => ⟨true, p⟩
  | .writeGraphic code => [⟨true, code⟩]
  | .delayUs _ => []
  | .moveDdram addr => [⟨false, 0x80 ||| (addr &&& 0x7F)⟩]

/-- Every public function but the delay goes through `ensure`. -/
def Ensures : HalOp → Prop
  | .delayUs _ => False
  | _ => True

instance : DecidablePred Ensures
  | .writeInstr _ => isTrue trivial
  | .writeLetters _ => isTrue trivial
  | .writeGraphic _ => isTrue trivial
  | .delayUs _ => isFalse id
  | .moveDdram _ => isTrue trivial

/-- The single nibbles with which `ensure` brings the panel to its 4-bit interface. -/
def initNibbles : List Nibble := [(false, 0x3), (false, 0x3), (false, 0x3), (false, 0x2)]

def initBytes : List Pulse :=
  [⟨false, 0x28⟩, ⟨false, 0x08⟩, ⟨false, 0x01⟩, ⟨false, 0x06⟩, ⟨false, 0x0C⟩]

/-- RS and D7..D4 at every falling edge of EN, for lines that start at any levels. -/
def sampled (low : UInt8) (level : Gpio → Bool) (ops : List HalOp) : List Nibble :=
  (sample (panelWiring low) level
    ((HalState.powerOn.performs ops).bus.flatMap BusOp.writes)).map Pulse.nibble

/-- The trace reads as the initialisation, once, and then what the calls asked for. -/
def Decodes (low : UInt8) (level : Gpio → Bool) (ops : List HalOp) : Prop :=
  ∃ rest, sampled low level ops = initNibbles ++ rest ∧
    joinHalves rest = some (initBytes ++ ops.flatMap requested)

def nibblesOf (low : UInt8) (bus : List BusOp) : List Nibble :=
  (bus.flatMap (BusOp.pulses low)).map Pulse.nibble

theorem nibblesOf_append (low : UInt8) (a b : List BusOp) :
    nibblesOf low (a ++ b) = nibblesOf low a ++ nibblesOf low b := by
  simp only [nibblesOf, List.flatMap_append, List.map_append]

theorem nibble_nibblePulse (low : UInt8) (n : Nat) (rs : Bool) :
    (nibblePulse low n rs).nibble = (rs, n % 16) := by
  have hundriven : (low &&& (0x0F : UInt8)).toNat / 16 = 0 := by
    rw [toNat_lower]
    omega
  have hdriven : (UInt8.ofNat (n % 16 * 16)).toNat / 16 = n % 16 := by
    rw [UInt8.toNat_ofNat']
    omega
  have hor : ∀ a b : Nat, (a ||| b) / 16 = a / 16 ||| b / 16 := by
    intro a b
    simpa [Nat.shiftRight_eq_div_pow] using Nat.shiftRight_or_distrib (a := a) (b := b) (i := 4)
  rw [Pulse.nibble, nibblePulse, UInt8.toNat_or, hor, hdriven, hundriven, Nat.or_zero]

theorem nibblesOf_w8 (low v : UInt8) (rs : Bool) :
    nibblesOf low [.w8 v rs] = Pulse.halves ⟨rs, v⟩ := by
  have hhigh : v.toNat / 16 % 16 = v.toNat / 16 := by
    have := v.toNat_lt
    omega
  simp [nibblesOf, BusOp.pulses, nibble_nibblePulse, hhigh, Pulse.halves]

theorem nibblesOf_busOps (low : UInt8) (op : HalOp) :
    nibblesOf low op.busOps = (requested op).flatMap Pulse.halves := by
  cases op with
  | writeInstr code => exact nibblesOf_w8 low code false
  | writeLetters text =>
    cases text with
    | none => rfl
    | some s =>
      simp only [HalOp.busOps, requested]
      induction s.bytes with
      | nil => rfl
      | cons p ps ih =>
        have hsplit : (p :: ps).map (fun p => BusOp.w8 p true) =
            [.w8 p true] ++ ps.map fun p => .w8 p true := rfl
        rw [hsplit, nibblesOf_append, nibblesOf_w8, ih]
        rfl
  | writeGraphic code => exact nibblesOf_w8 low code true
  | delayUs us => rfl
  | moveDdram addr => exact nibblesOf_w8 low _ false

theorem nibblesOf_ensureOps (low : UInt8) :
    nibblesOf low ensureOps = initNibbles ++ initBytes.flatMap Pulse.halves := by
  simp [nibblesOf, ensureOps, BusOp.pulses, nibble_nibblePulse, initNibbles, initBytes,
    Pulse.halves]

theorem perform_of_ensures {op : HalOp} (h : Ensures op) (s : HalState) :
    op.perform s = (ensure s).emit op.busOps := by
  cases op with
  | writeLetters text =>
    cases text with
    | none => simp [HalOp.perform, halWriteLetters, HalOp.busOps, HalState.emit]
    | some s => rfl
  | delayUs us => exact h.elim
  | _ => rfl

theorem ensure_of_not_inited {s : HalState} (hs : s.inited = false) :
    ensure s = ⟨true, s.bus ++ ensureOps⟩ := by
  rw [ensure, hs]
  rfl

theorem nibblesOf_flatMap_busOps (low : UInt8) (ops : List HalOp) :
    nibblesOf low (ops.flatMap HalOp.busOps) = (ops.flatMap requested).flatMap Pulse.halves := by
  induction ops with
  | nil => rfl
  | cons op ops ih =>
    rw [List.flatMap_cons, nibblesOf_append, nibblesOf_busOps, ih, List.flatMap_cons,
      List.flatMap_append]

/-- Delays before the initialisation reach no line; the first call of another kind brings the
initialisation along, and after it every call adds its own bytes. -/
theorem nibblesOf_performs (low : UInt8) (ops : List HalOp) {s : HalState} (hs : s.inited = false) :
    nibblesOf low (s.performs ops).bus = nibblesOf low s.bus ++
      if ∃ op ∈ ops, Ensures op then
        initNibbles ++ (initBytes ++ ops.flatMap requested).flatMap Pulse.halves
      else [] := by
  induction ops generalizing s with
  | nil => simp
  | cons op ops ih =>
    have hstep : s.performs (op :: ops) = (op.perform s).performs ops := rfl
    by_cases h : Ensures op
    · have hbus : (s.performs (op :: ops)).bus =
          s.bus ++ ensureOps ++ (op :: ops).flatMap HalOp.busOps := by
        rw [hstep, perform_of_ensures h, ensure_of_not_inited hs, performs_of_inited ops rfl]
        simp [HalState.emit]
      rw [hbus, if_pos ⟨op, List.mem_cons_self, h⟩, nibblesOf_append, nibblesOf_append,
        nibblesOf_ensureOps, nibblesOf_flatMap_busOps, List.flatMap_append]
      simp only [List.append_assoc]
    · obtain ⟨us, rfl⟩ : ∃ us, op = .delayUs us := by
        cases op with
        | delayUs us => exact ⟨us, rfl⟩
        | _ => exact absurd trivial h
      have hquiet : nibblesOf low (s.emit [.usleep us]).bus = nibblesOf low s.bus := by
        simp [HalState.emit, nibblesOf, BusOp.pulses]
      have hlater : (∃ op ∈ HalOp.delayUs us :: ops, Ensures op) ↔ ∃ op ∈ ops, Ensures op := by
        simp [h]
      have hrequested : (HalOp.delayUs us :: ops).flatMap requested = ops.flatMap requested := rfl
      have hdelay : (HalOp.delayUs us).perform s = s.emit [.usleep us] := rfl
      have hrest := ih (show (s.emit [.usleep us]).inited = false from hs)
      rw [hstep, hdelay, hrest, hquiet, hrequested]
      simp only [hlater]

theorem sampled_eq (low : UInt8) (level : Gpio → Bool) (ops : List HalOp) :
    sampled low level ops = if ∃ op ∈ ops, Ensures op then
      initNibbles ++ (initBytes ++ ops.flatMap requested).flatMap Pulse.halves else [] := by
  rw [sampled, sample_bus]
  exact nibblesOf_performs low ops rfl

/-- Whatever the calls and their order, the trace decodes exactly when there is a call at all: the
initialisation is lazy, so nothing is sampled before the first one. -/
theorem decodes_iff (low : UInt8) (level : Gpio → Bool) (ops : List HalOp) :
    Decodes low level ops ↔ ∃ op ∈ ops, Ensures op := by
  constructor
  · rintro ⟨rest, hsampled, -⟩
    by_contra hnone
    rw [sampled_eq, if_neg hnone] at hsampled
    cases hsampled
  · intro hcall
    have hsampled := sampled_eq low level ops
    rw [if_pos hcall] at hsampled
    have hjoined := joinHalves_flatMap_halves (initBytes ++ ops.flatMap requested)
    exact ⟨_, hsampled, hjoined⟩

/-- Start-up alone: no call has been made, and no nibble is sampled. -/
theorem startUp_not_decodes : ¬ Decodes 0x00 (fun _ => false) [] := by
  rintro ⟨rest, hsampled, -⟩
  cases hsampled

end Evi7688.Libevi.HalTrace
