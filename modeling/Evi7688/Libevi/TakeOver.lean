/- Evi7688/Libevi/TakeOver
   digest: A process of the caption library takes over a panel that others left in any state. -/

import Evi7688.Library.CharacterPicture
import Evi7688.Libevi.HalTrace
import Evi7688.Libevi.InterfaceWidth

set_option autoImplicit false
set_option relaxedAutoImplicit false

namespace Evi7688.Libevi.TakeOver

open Evi7688.Library.CharacterPanel
open Evi7688.Library.CharacterPicture
open Hal
open HalTrace (requested Ensures perform_of_ensures ensure_of_not_inited)
open InterfaceWidth (SelectsEightBit nibbles_join execute_fourBit_iff)

/-- The controller after the calls of a new process, whatever reached it before. -/
def afterProcess (history : List Pulse) (low : UInt8) (level : Gpio → Bool) (ops : List HalOp) :
    Controller :=
  (Controller.powerOn.pulses history).pulses
    (sample (panelWiring low) level ((HalState.powerOn.performs ops).bus.flatMap BusOp.writes))

/-- Both halves of a byte, beside whatever is on the lower lines. -/
def bytePulses (low : UInt8) (p : Pulse) : List Pulse := BusOp.pulses low (.w8 p.bus p.rs)

section Bytes

variable {c : Controller} (low : UInt8)

theorem pulses_byte (h : c.FourBit) (p : Pulse) :
    c.pulses (bytePulses low p) = c.execute p.rs p.bus := by
  have hjoined := Controller.pulses_pair h p.rs (nibblePulse low (p.bus.toNat / 16) p.rs).bus
    (nibblePulse low p.bus.toNat p.rs).bus
  rw [nibbles_join] at hjoined
  exact hjoined

theorem pulses_bytes (h : c.FourBit) {ps : List Pulse}
    (narrow : ∀ p ∈ ps, p.rs = false → ¬ SelectsEightBit p.bus) :
    c.pulses (ps.flatMap (bytePulses low)) = ⟨false, none, c.received ++ ps⟩ := by
  induction ps generalizing c with
  | nil =>
    obtain ⟨w, p, r⟩ := c
    obtain ⟨rfl, rfl⟩ : w = false ∧ p = none := h
    simp [Controller.pulses]
  | cons p ps ih =>
    have hnext : (c.execute p.rs p.bus).FourBit := by
      rw [execute_fourBit_iff h]
      rintro ⟨hrs, hwide⟩
      exact narrow p List.mem_cons_self hrs hwide
    have hrest := ih hnext fun q hq => narrow q (List.mem_cons_of_mem _ hq)
    rw [List.flatMap_cons, Controller.pulses_append, pulses_byte low h, hrest]
    simp [Controller.execute]

theorem pulses_busOps (op : HalOp) :
    op.busOps.flatMap (BusOp.pulses low) = (requested op).flatMap (bytePulses low) := by
  cases op with
  | writeLetters text =>
    cases text with
    | none => rfl
    | some s => simp [HalOp.busOps, requested, List.flatMap_map, bytePulses]
  | _ => rfl

theorem pulses_flatMap_busOps (ops : List HalOp) :
    (ops.flatMap HalOp.busOps).flatMap (BusOp.pulses low) =
      (ops.flatMap requested).flatMap (bytePulses low) := by
  induction ops with
  | nil => rfl
  | cons op ops ih =>
    rw [List.flatMap_cons, List.flatMap_append, pulses_busOps, ih, List.flatMap_cons,
      List.flatMap_append]

end Bytes

section Initialisation

variable (low : UInt8)

def initBytes : List Pulse := bytes [0x28, 0x08, 0x01, 0x06, 0x0C]

theorem pulses_ensureOps :
    ensureOps.flatMap (BusOp.pulses low) =
      wakeNibbles low ++ initBytes.flatMap (bytePulses low) := rfl

/-- The initialisation leaves the 4-bit interface, a cleared display and nothing else, for any
controller and any picture it finds. -/
theorem pulses_ensure (c : Controller) :
    ∃ more, c.pulses (ensureOps.flatMap (BusOp.pulses low)) =
      ⟨false, none, c.received ++ more ++ bytes [0x01, 0x06, 0x0C]⟩ := by
  obtain ⟨more, hmore⟩ := wake_fourBit low c
  have hnarrow : ∀ p ∈ initBytes, p.rs = false → ¬ SelectsEightBit p.bus := by decide
  have hbytes := pulses_bytes low (c := ⟨false, none, c.received ++ more⟩) ⟨rfl, rfl⟩ hnarrow
  refine ⟨more ++ bytes [0x28, 0x08], ?_⟩
  rw [pulses_ensureOps, Controller.pulses_append, hmore, hbytes]
  simp [initBytes, bytes]

theorem pulses_performs {ops : List HalOp} (call : ∃ op ∈ ops, Ensures op) {s : HalState}
    (hs : s.inited = false) :
    (s.performs ops).bus.flatMap (BusOp.pulses low) = s.bus.flatMap (BusOp.pulses low) ++
      ensureOps.flatMap (BusOp.pulses low) ++ (ops.flatMap requested).flatMap (bytePulses low) := by
  induction ops generalizing s with
  | nil =>
    obtain ⟨op, hop, -⟩ := call
    cases hop
  | cons op ops ih =>
    have hstep : s.performs (op :: ops) = (op.perform s).performs ops := rfl
    by_cases h : Ensures op
    · have hbus : (s.performs (op :: ops)).bus =
          s.bus ++ ensureOps ++ (op :: ops).flatMap HalOp.busOps := by
        rw [hstep, perform_of_ensures h, ensure_of_not_inited hs, performs_of_inited ops rfl]
        simp [HalState.emit]
      rw [hbus, List.flatMap_append, List.flatMap_append, pulses_flatMap_busOps]
    · obtain ⟨us, rfl⟩ : ∃ us, op = .delayUs us := by
        cases op with
        | delayUs us => exact ⟨us, rfl⟩
        | _ => exact absurd trivial h
      have hlater : ∃ op ∈ ops, Ensures op := by simpa [h] using call
      have hdelay : (HalOp.delayUs us).perform s = s.emit [.usleep us] := rfl
      have hquiet : (s.emit [.usleep us]).bus.flatMap (BusOp.pulses low) =
          s.bus.flatMap (BusOp.pulses low) := by
        simp [HalState.emit, BusOp.pulses]
      have hrest := ih hlater (s := s.emit [.usleep us]) hs
      rw [hstep, hdelay, hrest, hquiet]
      rfl

end Initialisation

/-- Whatever programs did to the panel before, and wherever they were stopped, the panel shows what
the calls of a new process ask for and no trace of the rest, in step with the process as long as no
call selects the 8-bit interface. -/
theorem takesOver (beside : Bool → Fin 128 → Fin 128) (start : Picture) (history : List Pulse)
    (low : UInt8) (level : Gpio → Bool) {ops : List HalOp} (call : ∃ op ∈ ops, Ensures op)
    (narrow : ∀ p ∈ ops.flatMap requested, p.rs = false → ¬ SelectsEightBit p.bus) :
    (afterProcess history low level ops).FourBit ∧
      picture beside start (afterProcess history low level ops) =
        (ops.flatMap requested).foldl (Picture.receive beside) .fresh := by
  obtain ⟨more, hinit⟩ := pulses_ensure low (Controller.powerOn.pulses history)
  have hpulses := pulses_performs low call (s := .powerOn) rfl
  have hnone : HalState.powerOn.bus.flatMap (BusOp.pulses low) = [] := rfl
  have hafter : afterProcess history low level ops =
      ⟨false, none, (Controller.powerOn.pulses history).received ++ more ++
        bytes [0x01, 0x06, 0x0C] ++ ops.flatMap requested⟩ := by
    rw [afterProcess, sample_bus, hpulses, hnone, List.nil_append, Controller.pulses_append, hinit]
    exact pulses_bytes low ⟨rfl, rfl⟩ narrow
  rw [hafter]
  refine ⟨⟨rfl, rfl⟩, ?_⟩
  rw [picture_mk, List.foldl_append]
  exact congrArg (List.foldl _ · _) (receive_reset _)

/-- A process that finds half a byte read and writes an `A` in the second row. -/
theorem takesOver_halfByte :
    (afterProcess [⟨false, 0x20⟩, ⟨false, 0x40⟩] 0x00 (fun _ => true)
        [.delayUs 10, .moveDdram 0x40, .writeGraphic 0x41]).FourBit ∧
      (picture (fun _ i => i) .fresh (afterProcess [⟨false, 0x20⟩, ⟨false, 0x40⟩] 0x00
        (fun _ => true) [.delayUs 10, .moveDdram 0x40, .writeGraphic 0x41])).text 0x40 = 0x41 := by
  have call : ∃ op ∈ [HalOp.delayUs 10, .moveDdram 0x40, .writeGraphic 0x41], Ensures op :=
    ⟨.moveDdram 0x40, by decide, trivial⟩
  have h := takesOver (fun _ i => i) .fresh [⟨false, 0x20⟩, ⟨false, 0x40⟩] 0x00 (fun _ => true) call
    (by decide)
  refine ⟨h.1, ?_⟩
  rw [h.2]
  decide

end Evi7688.Libevi.TakeOver
