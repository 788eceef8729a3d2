/- Evi7688/Library/CharacterPicture
   digest: What a character display shows of the bytes it receives, and how an initialisation takes it over. -/

import Evi7688.Library.CharacterPanel

set_option autoImplicit false
set_option relaxedAutoImplicit false

namespace Evi7688.Library.CharacterPicture

open Evi7688.Library.CharacterPanel

/-- The display memory and how it is shown; there is no display address while characters are being
defined. -/
structure Picture where
  on : Bool
  forward : Bool
  scroll : Bool
  shift : Int
  cursor : Option (Fin 128)
  text : Fin 128 → UInt8

/-- A display that has just been cleared and switched on. -/
def Picture.fresh : Picture := ⟨true, true, false, 0, some 0, fun _ => 0x20⟩

def instruction (v : UInt8) : Pulse := ⟨false, v⟩

-- `beside` says where the cursor goes forwards and backwards, which the sizes of the rows decide
variable (beside : Bool → Fin 128 → Fin 128)

def moved (forward : Bool) (shift : Int) : Int := if forward then shift + 1 else shift - 1

/-- The instruction set of the controllers: the highest bit that is set tells the instruction. -/
def Picture.receive (d : Picture) (x : Pulse) : Picture :=
  let bit (i : Nat) : Bool := x.bus.toNat.testBit i
  if x.rs then
    match d.cursor with
    | none => d
    | some i =>
      { d with
        text := Function.update d.text i x.bus
        cursor := some (beside d.forward i)
        shift := if d.scroll then moved d.forward d.shift else d.shift }
  else if bit 7 then { d with cursor := some (Fin.ofNat 128 x.bus.toNat) }
  else if bit 6 then { d with cursor := none }
  else if bit 5 then d
  else if bit 4 then
    if bit 3 then { d with shift := moved (bit 2) d.shift }
    else { d with cursor := d.cursor.map (beside (bit 2)) }
  else if bit 3 then { d with on := bit 2 }
  else if bit 2 then { d with forward := bit 1, scroll := bit 0 }
  else if bit 1 then { d with cursor := some 0, shift := 0 }
  else if bit 0 then { d with forward := true, shift := 0, cursor := some 0, text := fun _ => 0x20 }
  else d

/-- What is shown after everything that was received, for any picture it started from. -/
def picture (start : Picture) (c : Controller) : Picture :=
  c.received.foldl (Picture.receive beside) start

variable {beside}

theorem picture_mk (start : Picture) (w : Bool) (p : Option UInt8) (before after : List Pulse) :
    picture beside start ⟨w, p, before ++ after⟩ =
      after.foldl (Picture.receive beside) (before.foldl (Picture.receive beside) start) :=
  List.foldl_append

theorem receive_reset (d : Picture) :
    [instruction 0x01, instruction 0x06, instruction 0x0C].foldl (Picture.receive beside) d =
      .fresh := by
  simp [instruction, Picture.receive, Picture.fresh, Nat.testBit]

section Waking

variable {c : Controller}

theorem pulses_cons (c : Controller) (p : Pulse) (ps : List Pulse) :
    c.pulses (p :: ps) = (c.pulse p).pulses ps := rfl

theorem pulse_eightBit (r : List Pulse) (p : Option UInt8) (v : UInt8) :
    (Controller.mk true p r).pulse (instruction v) =
      ⟨if v &&& 0xE0 = 0x20 then v &&& 0x10 != 0 else true, none, r ++ [instruction v]⟩ := by
  simp [Controller.pulse, Controller.execute, instruction]

theorem pulse_first (r : List Pulse) (v : UInt8) :
    (Controller.mk false none r).pulse (instruction v) = ⟨false, some (v &&& 0xF0), r⟩ := rfl

theorem pulse_second (r : List Pulse) (high v : UInt8) :
    (Controller.mk false (some high) r).pulse (instruction v) =
      ⟨if (high ||| v >>> 4) &&& 0xE0 = 0x20 then (high ||| v >>> 4) &&& 0x10 != 0 else false, none,
        r ++ [instruction (high ||| v >>> 4)]⟩ := by
  simp [Controller.pulse, Controller.execute, instruction]

/-- A nibble on the upper lines, whatever is on the lower ones. -/
def upper (nibble low : UInt8) : Pulse := instruction (nibble <<< 4 ||| (low &&& 0x0F))

/-- The nibbles 3, 3, 3 and 2. -/
def wakeNibbles (low : UInt8) : List Pulse := [upper 3 low, upper 3 low, upper 3 low, upper 2 low]

/-- What a controller takes the nibbles 3 and 2 for, alone or as halves. -/
structure WakeBits (three two : UInt8) : Prop where
  threeSet : three &&& 0xE0 = 0x20
  threeWide : three &&& 0x10 = 0x10
  threeHigh : three &&& 0xF0 = 0x30
  threeLow : three >>> 4 = 0x03
  twoSet : two &&& 0xE0 = 0x20
  twoNarrow : two &&& 0x10 = 0

instance (three two : UInt8) : Decidable (WakeBits three two) :=
  decidable_of_iff (three &&& 0xE0 = 0x20 ∧ three &&& 0x10 = 0x10 ∧ three &&& 0xF0 = 0x30 ∧
      three >>> 4 = 0x03 ∧ two &&& 0xE0 = 0x20 ∧ two &&& 0x10 = 0)
    ⟨fun ⟨a, b, c, d, e, f⟩ => ⟨a, b, c, d, e, f⟩, fun ⟨a, b, c, d, e, f⟩ => ⟨a, b, c, d, e, f⟩⟩

theorem wakeBits (low : UInt8) :
    WakeBits ((3 : UInt8) <<< 4 ||| (low &&& 0x0F)) ((2 : UInt8) <<< 4 ||| (low &&& 0x0F)) := by
  have table : ∀ n : Fin 256, WakeBits ((3 : UInt8) <<< 4 ||| (UInt8.ofNat n.val &&& 0x0F))
      ((2 : UInt8) <<< 4 ||| (UInt8.ofNat n.val &&& 0x0F)) := by
    decide +kernel
  simpa using table ⟨low.toNat, low.toNat_lt⟩

theorem upper_three_wide (low : UInt8) (p : Option UInt8) (r : List Pulse) :
    (Controller.mk true p r).pulse (upper 3 low) = ⟨true, none, r ++ [upper 3 low]⟩ := by
  have bits := wakeBits low
  rw [upper, pulse_eightBit, if_pos bits.threeSet, bits.threeWide]
  rfl

theorem upper_two_wide (low : UInt8) (p : Option UInt8) (r : List Pulse) :
    (Controller.mk true p r).pulse (upper 2 low) = ⟨false, none, r ++ [upper 2 low]⟩ := by
  have bits := wakeBits low
  rw [upper, pulse_eightBit, if_pos bits.twoSet, bits.twoNarrow]
  rfl

theorem upper_three_first (low : UInt8) (r : List Pulse) :
    (Controller.mk false none r).pulse (upper 3 low) = ⟨false, some 0x30, r⟩ := by
  have bits := wakeBits low
  rw [upper, pulse_first, bits.threeHigh]

theorem upper_three_second (low : UInt8) (r : List Pulse) :
    (Controller.mk false (some 0x30) r).pulse (upper 3 low) =
      ⟨true, none, r ++ [instruction 0x33]⟩ := by
  have bits := wakeBits low
  rw [upper, pulse_second, bits.threeLow]
  rfl

theorem wake_between (low : UInt8) (w : Bool) (r : List Pulse) :
    ∃ more, (Controller.mk w none r).pulses [upper 3 low, upper 3 low, upper 2 low] =
      ⟨false, none, r ++ more⟩ := by
  cases w with
  | true =>
    refine ⟨[upper 3 low] ++ [upper 3 low] ++ [upper 2 low], ?_⟩
    rw [pulses_cons, upper_three_wide, pulses_cons, upper_three_wide, pulses_cons, upper_two_wide]
    simp [Controller.pulses]
  | false =>
    refine ⟨[instruction 0x33] ++ [upper 2 low], ?_⟩
    rw [pulses_cons, upper_three_first, pulses_cons, upper_three_second, pulses_cons,
      upper_two_wide]
    simp [Controller.pulses]

/-- The four nibbles bring the controller to a byte boundary of the 4-bit interface, in whatever
state they find it, half a byte read or not. -/
theorem wake_fourBit (low : UInt8) (c : Controller) :
    ∃ more, c.pulses (wakeNibbles low) = ⟨false, none, c.received ++ more⟩ := by
  -- once a byte is complete, the other three nibbles do
  have complete : ∀ w r more, c.pulse (upper 3 low) = ⟨w, none, r ++ more⟩ → r = c.received →
      ∃ more, c.pulses (wakeNibbles low) = ⟨false, none, c.received ++ more⟩ := by
    rintro w r more hpulse rfl
    obtain ⟨rest, hrest⟩ := wake_between low w (c.received ++ more)
    refine ⟨more ++ rest, ?_⟩
    rw [wakeNibbles, pulses_cons, hpulse, hrest, List.append_assoc]
  obtain ⟨w, p, r⟩ := c
  cases w with
  | true => exact complete _ r _ (upper_three_wide low p r) rfl
  | false =>
    cases p with
    | some high => exact complete _ r _ (pulse_second r high _) rfl
    | none =>
      refine ⟨[instruction 0x33] ++ [upper 3 low] ++ [upper 2 low], ?_⟩
      rw [wakeNibbles, pulses_cons, upper_three_first, pulses_cons, upper_three_second, pulses_cons,
        upper_three_wide, pulses_cons, upper_two_wide]
      simp [Controller.pulses]

end Waking

section EightBitInitialisation

variable {v : UInt8}

def bytes (vs : List UInt8) : List Pulse := vs.map instruction

/-- A Function Set for the 4-bit interface. -/
def Narrows (v : UInt8) : Prop := v &&& 0xF0 = 0x20

instance (v : UInt8) : Decidable (Narrows v) := inferInstanceAs (Decidable (_ = _))

theorem pulse_wide (wide : ¬ Narrows v) (p : Option UInt8) (r : List Pulse) :
    (Controller.mk true p r).pulse (instruction v) = ⟨true, none, r ++ [instruction v]⟩ := by
  have table : ∀ n : Fin 256, ¬ Narrows (UInt8.ofNat n.val) →
      UInt8.ofNat n.val &&& (0xE0 : UInt8) = 0x20 →
        (UInt8.ofNat n.val &&& (0x10 : UInt8) != 0) = true := by
    decide +kernel
  have hv := table ⟨v.toNat, v.toNat_lt⟩
  simp only [UInt8.ofNat_toNat] at hv
  rw [pulse_eightBit]
  split_ifs with hset
  · rw [hv wide hset]
  · rfl

theorem pulse_data (p : Option UInt8) (r : List Pulse) (b : UInt8) :
    (Controller.mk true p r).pulse ⟨true, b⟩ = ⟨true, none, r ++ [⟨true, b⟩]⟩ := by
  simp [Controller.pulse, Controller.execute]

theorem pulses_wide {ps : List Pulse} (wide : ∀ p ∈ ps, p.rs = false → ¬ Narrows p.bus)
    (r : List Pulse) : (Controller.mk true none r).pulses ps = ⟨true, none, r ++ ps⟩ := by
  induction ps generalizing r with
  | nil => simp [Controller.pulses]
  | cons p ps ih =>
    have hfirst : (Controller.mk true none r).pulse p = ⟨true, none, r ++ [p]⟩ := by
      obtain ⟨rs, v⟩ := p
      cases rs with
      | true => exact pulse_data none r v
      | false => exact pulse_wide (wide _ List.mem_cons_self rfl) none r
    have hrest := ih (fun q hq => wide q (List.mem_cons_of_mem _ hq)) (r ++ [p])
    rw [pulses_cons, hfirst, hrest, List.append_assoc]
    rfl

theorem functionSet_wide (p : Option UInt8) (r : List Pulse) :
    (Controller.mk true p r).pulse (instruction 0x30) = ⟨true, none, r ++ [instruction 0x30]⟩ :=
  pulse_wide (by decide) p r

theorem functionSet_second (high : UInt8) (r : List Pulse) :
    (Controller.mk false (some high) r).pulse (instruction 0x30) =
      ⟨if (high ||| 0x03) &&& 0xE0 = 0x20 then (high ||| 0x03) &&& 0x10 != 0 else false, none,
        r ++ [instruction (high ||| 0x03)]⟩ :=
  pulse_second r high 0x30

/-- Half a byte was read whose other half is still to come, and it does not make the first nibble 3
select the 8-bit interface. -/
def Midway (c : Controller) : Prop :=
  c.eightBit = false ∧ ∃ high, c.pending = some high ∧
    ¬ ((high ||| 0x03) &&& 0xE0 = 0x20 ∧ (high ||| 0x03) &&& 0x10 ≠ 0)

theorem functionSet_midway {c : Controller} (h : Midway c) :
    ∃ high, c.pending = some high ∧
      c.pulse (instruction 0x30) = ⟨false, none, c.received ++ [instruction (high ||| 0x03)]⟩ := by
  obtain ⟨w, p, r⟩ := c
  obtain ⟨hwidth, high, hpending, hkeeps⟩ := h
  obtain rfl : w = false := hwidth
  obtain rfl : p = some high := hpending
  refine ⟨high, rfl, ?_⟩
  rw [functionSet_second]
  by_cases hset : (high ||| 0x03) &&& 0xE0 = 0x20
  · have hnarrow : (high ||| 0x03) &&& 0x10 = 0 := by
      by_contra hwide
      exact hkeeps ⟨hset, hwide⟩
    rw [if_pos hset, hnarrow]
    rfl
  · rw [if_neg hset]

theorem functionSets_wide {c : Controller} (h : ¬ Midway c) :
    ∃ more, c.pulses (bytes [0x30, 0x30]) = ⟨true, none, c.received ++ more⟩ := by
  obtain ⟨w, p, r⟩ := c
  cases w with
  | true =>
    refine ⟨[instruction 0x30] ++ [instruction 0x30], ?_⟩
    rw [bytes, List.map_cons, pulses_cons, functionSet_wide, List.map_cons, pulses_cons,
      functionSet_wide]
    simp [Controller.pulses]
  | false =>
    cases p with
    | none =>
      refine ⟨[instruction 0x33], ?_⟩
      rw [bytes, List.map_cons, pulses_cons, pulse_first, List.map_cons, pulses_cons]
      exact congrArg (Controller.pulses · []) (functionSet_second 0x30 r)
    | some high =>
      have hsel : (high ||| 0x03) &&& 0xE0 = 0x20 ∧ (high ||| 0x03) &&& 0x10 ≠ 0 := by
        by_contra hkeeps
        exact h ⟨rfl, high, rfl, hkeeps⟩
      have hwide : ((high ||| 0x03) &&& 0x10 != 0) = true := by simpa using hsel.2
      refine ⟨[instruction (high ||| 0x03)] ++ [instruction 0x30], ?_⟩
      rw [bytes, List.map_cons, pulses_cons, functionSet_second, if_pos hsel.1, hwide,
        List.map_cons, pulses_cons, functionSet_wide]
      simp [Controller.pulses]

theorem functionSets_midway {c : Controller} (h : Midway c) (low : v >>> 4 = 0) :
    ∃ high, c.pending = some high ∧ c.pulses (bytes [0x30, 0x30, v]) =
      ⟨true, none, c.received ++ [instruction (high ||| 0x03), instruction 0x30]⟩ := by
  obtain ⟨high, hpending, hfirst⟩ := functionSet_midway h
  refine ⟨high, hpending, ?_⟩
  have hjoined : (0x30 &&& 0xF0 : UInt8) ||| v >>> 4 = 0x30 := by
    rw [low]
    rfl
  rw [bytes, List.map_cons, pulses_cons, hfirst, List.map_cons, pulses_cons, pulse_first,
    List.map_cons, pulses_cons, pulse_second, hjoined]
  simp only [Controller.pulses, List.append_assoc]
  rfl

/-- In any case the interface is eight bits wide after the instruction that follows, which then
cannot be relied on. -/
theorem functionSets_then (c : Controller) (low : v >>> 4 = 0) (wide : ¬ Narrows v) :
    ∃ more, c.pulses (bytes [0x30, 0x30, v]) = ⟨true, none, c.received ++ more⟩ := by
  by_cases h : Midway c
  · obtain ⟨high, -, hpulses⟩ := functionSets_midway h low
    exact ⟨_, hpulses⟩
  · obtain ⟨more, hmore⟩ := functionSets_wide h
    refine ⟨more ++ [instruction v], ?_⟩
    have hsplit : bytes [0x30, 0x30, v] = bytes [0x30, 0x30] ++ [instruction v] := rfl
    have hlast := pulse_wide wide none (c.received ++ more)
    rw [hsplit, Controller.pulses_append, hmore, ← List.append_assoc]
    exact hlast

end EightBitInitialisation

end Evi7688.Library.CharacterPicture
