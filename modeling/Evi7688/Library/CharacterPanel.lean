/- Evi7688/Library/CharacterPanel
   digest: Character display controllers: bus samples at falling enable edges, and the width of the interface. -/

import Mathlib.Tactic.Common
import Mathlib.Logic.Function.Basic

set_option autoImplicit false
set_option relaxedAutoImplicit false

namespace Evi7688.Library.CharacterPanel

universe u

/-- What the controller latches at one falling edge of its enable line. -/
structure Pulse where
  rs : Bool
  bus : UInt8
  deriving DecidableEq

/-- The lines of a board that reach the controller, and how their levels spell the data bus. -/
structure Wiring (L : Type u) where
  rs : L
  en : L
  bus : (L → Bool) → UInt8

variable {L : Type u} [DecidableEq L]

def settle (level : L → Bool) (writes : List (L × Bool)) : L → Bool :=
  writes.foldl (fun lv w => Function.update lv w.1 w.2) level

def sample (w : Wiring L) (level : L → Bool) : List (L × Bool) → List Pulse
  | [] => []
  | (l, v) :: rest =>
    (if l = w.en ∧ level l = true ∧ v = false then [⟨level w.rs, w.bus level⟩] else []) ++
      sample w (Function.update level l v) rest

theorem settle_append (level : L → Bool) (a b : List (L × Bool)) :
    settle level (a ++ b) = settle (settle level a) b :=
  List.foldl_append

theorem sample_append (w : Wiring L) (level : L → Bool) (a b : List (L × Bool)) :
    sample w level (a ++ b) = sample w level a ++ sample w (settle level a) b := by
  induction a generalizing level with
  | nil => rfl
  | cons x a ih =>
    obtain ⟨l, v⟩ := x
    simp only [List.cons_append, sample, ih, List.append_assoc]
    rfl

theorem sample_quiet (w : Wiring L) (level : L → Bool) {writes : List (L × Bool)}
    (h : ∀ x ∈ writes, x.1 ≠ w.en) : sample w level writes = [] := by
  induction writes generalizing level with
  | nil => rfl
  | cons x writes ih =>
    obtain ⟨l, v⟩ := x
    have hl : l ≠ w.en := h (l, v) List.mem_cons_self
    have htail : sample w (Function.update level l v) writes = [] :=
      ih _ fun y hy => h y (List.mem_cons_of_mem _ hy)
    rw [sample, if_neg (fun hc => hl hc.1), htail, List.nil_append]

theorem sample_strobe (w : Wiring L) (level : L → Bool) (hrs : w.rs ≠ w.en)
    (hbus : ∀ lv v, w.bus (Function.update lv w.en v) = w.bus lv) :
    sample w level [(w.en, true), (w.en, false)] = [⟨level w.rs, w.bus level⟩] := by
  simp [sample, hrs, hbus]

/-- The state of the interface: its width, the first half of a byte in 4-bit mode, and the bytes
received so far. -/
structure Controller where
  eightBit : Bool
  pending : Option UInt8
  received : List Pulse
  deriving DecidableEq

/-- After power-on the interface is eight bits wide. -/
def Controller.powerOn : Controller := ⟨true, none, []⟩

/-- A received byte; a Function Set instruction selects the width by its DL bit. -/
def Controller.execute (c : Controller) (rs : Bool) (byte : UInt8) : Controller where
  eightBit := if rs = false ∧ byte &&& 0xE0 = 0x20 then byte &&& 0x10 != 0 else c.eightBit
  pending := none
  received := c.received ++ [⟨rs, byte⟩]

/-- One pulse: a whole byte in 8-bit mode, half of one (on the upper four lines) in 4-bit mode. -/
def Controller.pulse (c : Controller) (p : Pulse) : Controller :=
  if c.eightBit then c.execute p.rs p.bus
  else
    match c.pending with
    | none => { c with pending := some (p.bus &&& 0xF0) }
    | some high => c.execute p.rs (high ||| p.bus >>> (4 : UInt8))

def Controller.pulses (c : Controller) (ps : List Pulse) : Controller := ps.foldl pulse c

def Controller.FourBit (c : Controller) : Prop := c.eightBit = false ∧ c.pending = none

instance (c : Controller) : Decidable c.FourBit := inferInstanceAs (Decidable (_ ∧ _))

theorem Controller.pulses_append (c : Controller) (a b : List Pulse) :
    c.pulses (a ++ b) = (c.pulses a).pulses b :=
  List.foldl_append

theorem Controller.pulses_pair {c : Controller} (h : c.FourBit) (rs : Bool) (high low : UInt8) :
    c.pulses [⟨rs, high⟩, ⟨rs, low⟩] = c.execute rs ((high &&& (0xF0 : UInt8)) ||| low >>> (4 : UInt8)) := by
  obtain ⟨hwidth, hpending⟩ := h
  simp [pulses, pulse, hwidth, hpending, execute]

/-- What lines D7 to D4 carry at a falling edge, beside the register select line. -/
abbrev Nibble := Bool × Nat

def Pulse.nibble (p : Pulse) : Nibble := (p.rs, p.bus.toNat / 16)

/-- A byte as it crosses a 4-bit interface, its upper half first. -/
def Pulse.halves (p : Pulse) : List Nibble := [(p.rs, p.bus.toNat / 16), (p.rs, p.bus.toNat % 16)]

/-- Pairing halves, the upper one first; the halves of a byte go to the same register. -/
def joinHalves : List Nibble → Option (List Pulse)
  | [] => some []
  | [_] => none
  | (rs, high) :: (rs', low) :: rest =>
    if rs = rs' then (joinHalves rest).map (⟨rs, UInt8.ofNat (high * 16 + low)⟩ :: ·) else none

theorem joinHalves_flatMap_halves (ps : List Pulse) :
    joinHalves (ps.flatMap Pulse.halves) = some ps := by
  induction ps with
  | nil => rfl
  | cons p ps ih =>
    have hbyte : UInt8.ofNat (p.bus.toNat / 16 * 16 + p.bus.toNat % 16) = p.bus := by
      rw [Nat.div_add_mod', UInt8.ofNat_toNat]
    have hsplit : (p :: ps).flatMap Pulse.halves =
        (p.rs, p.bus.toNat / 16) :: (p.rs, p.bus.toNat % 16) :: ps.flatMap Pulse.halves := rfl
    rw [hsplit, joinHalves, if_pos rfl, ih, Option.map_some, hbyte]

end Evi7688.Library.CharacterPanel
