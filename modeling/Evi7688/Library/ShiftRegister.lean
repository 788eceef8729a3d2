/- Evi7688/Library/ShiftRegister
   digest: Feedback shift registers that are fed a bit at a time, and the bursts they tell apart. -/

import Mathlib.Data.List.GetD
import Mathlib.Tactic.Common

set_option autoImplicit false
set_option relaxedAutoImplicit false

namespace Evi7688.Library.ShiftRegister

variable {w : Nat}

/-- One shift towards the low end; when a one falls out, the feedback is added. -/
def shift (poly s : BitVec w) : BitVec w := if s.getLsbD 0 then (s >>> 1) ^^^ poly else s >>> 1

def shifts (poly : BitVec w) : Nat → BitVec w → BitVec w
  | 0, s => s
  | n + 1, s => shifts poly n (shift poly s)

def lowBit (b : Bool) : BitVec w := if b then 1 else 0

/-- A bit is added to the low end before the shift. -/
def feed (poly s : BitVec w) (b : Bool) : BitVec w := shift poly (s ^^^ lowBit b)

def run (poly s : BitVec w) (bits : List Bool) : BitVec w := bits.foldl (feed poly) s

/-- The bits as a number, the first one lowest. -/
def spell : List Bool → BitVec w
  | [] => 0
  | b :: bits => lowBit b ^^^ (spell bits <<< 1)

/-- The strings are equal before and after a place of at most `n` bits. -/
def Burst (n : Nat) (x y : List Bool) : Prop :=
  ∃ before p q after, x = before ++ p ++ after ∧ y = before ++ q ++ after ∧
    p.length = q.length ∧ p.length ≤ n

section Linear

variable (poly : BitVec w)

theorem shift_xor (s t : BitVec w) : shift poly (s ^^^ t) = shift poly s ^^^ shift poly t := by
  unfold shift
  simp only [BitVec.getLsbD_xor, BitVec.ushiftRight_xor_distrib]
  cases s.getLsbD 0 <;> cases t.getLsbD 0 <;> simp only [Bool.xor_false, Bool.xor_true,
    Bool.not_false, Bool.not_true, Bool.false_eq_true, if_true, if_false]
  · rw [BitVec.xor_assoc]
  · rw [BitVec.xor_assoc, BitVec.xor_assoc, BitVec.xor_comm (t >>> 1)]
  · rw [BitVec.xor_assoc, BitVec.xor_comm (t >>> 1), ← BitVec.xor_assoc poly, BitVec.xor_self,
      BitVec.zero_xor]

theorem shifts_zero (n : Nat) : shifts poly n 0 = 0 := by
  induction n with
  | zero => rfl
  | succ n ih =>
    have hshift : shift poly 0 = 0 := by simp [shift]
    rw [shifts, hshift, ih]

theorem run_append (s : BitVec w) (a b : List Bool) :
    run poly s (a ++ b) = run poly (run poly s a) b :=
  List.foldl_append

end Linear

section Words

theorem getLsbD_lowBit (b : Bool) (i : Nat) :
    (lowBit b : BitVec w).getLsbD i = (b && decide (i = 0) && decide (0 < w)) := by
  cases b with
  | false => simp [lowBit]
  | true =>
    by_cases hw : 0 < w
    · by_cases hi : i = 0
      · simp [lowBit, hi, hw]
      · simp [lowBit, hi, BitVec.getLsbD_one]
    · obtain rfl : w = 0 := by omega
      simp

theorem getLsbD_spell (bits : List Bool) (i : Nat) :
    (spell bits : BitVec w).getLsbD i = (decide (i < w) && bits.getD i false) := by
  induction bits generalizing i with
  | nil => simp [spell]
  | cons b bits ih =>
    rw [spell, BitVec.getLsbD_xor, getLsbD_lowBit, BitVec.getLsbD_shiftLeft]
    cases i with
    | zero => cases b <;> simp
    | succ i =>
      by_cases hi : i + 1 < w
      · simpa [hi, show i < w by omega] using ih i
      · simp [hi]

theorem spell_append (p q : List Bool) :
    (spell (p ++ q) : BitVec w) = spell p ^^^ (spell q <<< p.length) := by
  induction p with
  | nil => simp [spell]
  | cons b p ih =>
    rw [List.cons_append, spell, ih, BitVec.shiftLeft_xor_distrib, ← BitVec.shiftLeft_add,
      ← BitVec.xor_assoc, spell, List.length_cons]

theorem spell_injective {p q : List Bool} (hp : p.length ≤ w) (hlength : p.length = q.length)
    (h : (spell p : BitVec w) = spell q) : p = q := by
  apply List.ext_getElem hlength
  intro i hi hi'
  have hbit := congrArg (fun v => v.getLsbD i) h
  simp only [getLsbD_spell, show i < w by omega, decide_true, Bool.true_and] at hbit
  rwa [List.getD_eq_getElem _ _ hi, List.getD_eq_getElem _ _ hi'] at hbit

theorem shift_spell (poly : BitVec w) {bits : List Bool} (h : bits.length < w) :
    shift poly (spell bits <<< 1) = spell bits := by
  have hlow : (spell bits <<< 1 : BitVec w).getLsbD 0 = false := by simp
  rw [shift, hlow, if_neg Bool.false_ne_true]
  apply BitVec.eq_of_getLsbD_eq
  intro i hi
  rw [BitVec.getLsbD_ushiftRight, BitVec.getLsbD_shiftLeft, Nat.add_sub_cancel_left]
  by_cases htop : 1 + i < w
  · simp [htop]
  · have hbit : (spell bits : BitVec w).getLsbD i = false := by
      rw [getLsbD_spell, List.getD_eq_default _ _ (by omega), Bool.and_false]
    rw [hbit, Bool.and_false]

theorem run_word (poly s : BitVec w) {bits : List Bool} (h : bits.length ≤ w) :
    run poly s bits = shifts poly bits.length (s ^^^ spell bits) := by
  induction bits generalizing s with
  | nil => simp [run, shifts, spell]
  | cons b bits ih =>
    rw [List.length_cons] at h
    have hstep : run poly s (b :: bits) = run poly (feed poly s b) bits := rfl
    rw [hstep, ih _ (by omega), List.length_cons, shifts, spell, feed, ← BitVec.xor_assoc,
      shift_xor poly (s ^^^ lowBit b), shift_spell poly (by omega)]

end Words

section Detection

variable {poly : BitVec w} (top : poly.getLsbD (w - 1) = true)

include top

theorem shift_eq_zero {s : BitVec w} (h : shift poly s = 0) : s = 0 := by
  have hw : 0 < w := by
    by_contra hzero
    obtain rfl : w = 0 := by omega
    simp at top
  rw [shift] at h
  split at h
  · -- the feedback reaches the top place, which the shift has cleared
    have hbit := congrArg (fun v => v.getLsbD (w - 1)) h
    simp only [BitVec.getLsbD_xor, BitVec.getLsbD_ushiftRight, top, Bool.xor_true] at hbit
    rw [BitVec.getLsbD_of_ge s (1 + (w - 1)) (by omega)] at hbit
    simp at hbit
  · rename_i hlow
    apply BitVec.eq_of_getLsbD_eq
    intro i hi
    cases i with
    | zero => simpa using hlow
    | succ i =>
      have hbit := congrArg (fun v => v.getLsbD i) h
      rw [BitVec.getLsbD_ushiftRight, Nat.add_comm] at hbit
      simpa using hbit

theorem shift_injective {s t : BitVec w} (h : shift poly s = shift poly t) : s = t := by
  have hzero : shift poly (s ^^^ t) = 0 := by
    rw [shift_xor, h]
    exact BitVec.xor_self
  exact BitVec.xor_eq_zero_iff.mp (shift_eq_zero top hzero)

theorem shifts_injective (n : Nat) {s t : BitVec w} (h : shifts poly n s = shifts poly n t) :
    s = t := by
  induction n generalizing s t with
  | zero => exact h
  | succ n ih => exact shift_injective top (ih h)

theorem run_injective (bits : List Bool) {s t : BitVec w} (h : run poly s bits = run poly t bits) :
    s = t := by
  induction bits generalizing s t with
  | nil => exact h
  | cons b bits ih => exact (BitVec.xor_left_inj _).mp (shift_injective top (ih h))

theorem run_word_injective (s : BitVec w) {p q : List Bool} (hp : p.length ≤ w)
    (hlength : p.length = q.length) (h : run poly s p = run poly s q) : p = q := by
  rw [run_word poly s hp, run_word poly s (hlength ▸ hp), hlength] at h
  exact spell_injective hp hlength ((BitVec.xor_right_inj _).mp (shifts_injective top _ h))

/-- A burst no longer than the register leaves another state. -/
theorem eq_of_burst (s : BitVec w) {x y : List Bool} (burst : Burst w x y)
    (h : run poly s x = run poly s y) : x = y := by
  obtain ⟨before, p, q, after, rfl, rfl, hlength, hshort⟩ := burst
  simp only [run_append] at h
  have hword : p = q := run_word_injective top _ hshort hlength (run_injective top after h)
  rw [hword]

end Detection

end Evi7688.Library.ShiftRegister
