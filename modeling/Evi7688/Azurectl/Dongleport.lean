/- Evi7688/Azurectl/Dongleport
   digest: Two relay commands at once: when an update of the port mask is lost. -/

import Evi7688.Azurectl.Main
import Evi7688.Library.SharedCell

set_option autoImplicit false
set_option relaxedAutoImplicit false

namespace Evi7688.Azurectl.Dongleport

open Evi7688.Library.Bytes (ascii)
open Evi7688.Library
open Uci
open Main

/-- The port bits a stored value stands for: a missing or negative one stands for none. -/
def portBits (value : Option (List UInt8)) : BitVec 32 :=
  BitVec.ofInt 32 (if uciGetInt value < 0 then 0 else uciGetInt value)

def storedBits (st : UciStore) : BitVec 32 := portBits (st.values dongleportKey)

/-- Each process's bit is as it asked, and every other bit as at the start. A missing mask and a
negative one (`-1` is what is stored without a dongle) have no bits. -/
def NoLostUpdate (req : Bool → Request) (st st' : UciStore) : Prop :=
  ∀ k, (storedBits st').getLsbD k =
    if k + 1 = (req false).port then decide ((req false).act = .on)
    else if k + 1 = (req true).port then decide ((req true).act = .on)
    else (storedBits st).getLsbD k

/-- Both processes have read the mask, and neither has written it. -/
def BothRead (s : System) : Prop := ∀ p, ∃ mask, s.point p = .write mask

/-- The bit of a request is already as it asks. -/
def AlreadySo (req : Request) (st : UciStore) : Prop :=
  (storedBits st).getLsbD (req.port - 1) = decide (req.act = .on)

instance (req : Request) (st : UciStore) : Decidable (AlreadySo req st) :=
  inferInstanceAs (Decidable (_ = _))

section Bits

def applied (req : Request) (m : BitVec 32) : BitVec 32 :=
  match req.act with
  | .on => m ||| 1#32 <<< (req.port - 1)
  | .off => m &&& ~~~(1#32 <<< (req.port - 1))

theorem getLsbD_applied (req : Request) (m : BitVec 32) (k : Nat) :
    (applied req m).getLsbD k =
      if k + 1 = req.port then decide (req.act = .on) else m.getLsbD k := by
  obtain ⟨act, port, hlower, hupper⟩ := req
  have hbit : (1#32 <<< (port - 1)).getLsbD k = decide (k + 1 = port) := by
    simp only [BitVec.getLsbD_shiftLeft, BitVec.getLsbD_one]
    by_cases hk : k + 1 = port
    · simp [hk, show k < 32 by omega, show ¬ k < port - 1 by omega, show k - (port - 1) = 0 by omega]
    · simp [hk]
      omega
  cases act with
  | on =>
    simp only [applied, BitVec.getLsbD_or, hbit]
    split_ifs with hk <;> simp [hk]
  | off =>
    simp only [applied, BitVec.getLsbD_and, BitVec.getLsbD_not, hbit]
    split_ifs with hk
    · simp [hk]
    · by_cases hlt : k < 32
      · simp [hk, hlt]
      · simp [hk, BitVec.getLsbD_of_ge m k (by omega)]

theorem msb_portBits (value : Option (List UInt8)) : (portBits value).msb = false := by
  obtain ⟨lower, upper⟩ := uciGetInt_range value
  have hrange : ∀ v : Int, 0 ≤ v → v < 2 ^ 31 → (BitVec.ofInt 32 v).msb = false := by
    intro v h₀ h₁
    have hint : (BitVec.ofInt 32 v).toInt = v := by
      rw [BitVec.toInt_ofInt]
      apply Int.bmod_eq_of_le
      · omega
      · omega
    rw [BitVec.msb_eq_toInt, hint]
    simpa using h₀
  unfold portBits
  split_ifs with hneg
  · exact hrange 0 (by omega) (by omega)
  · exact hrange _ (by omega) upper

theorem newMask_eq (req : Request) (value : Option (List UInt8)) :
    newMask req (uciGetInt value) = (applied req (portBits value)).toInt := by
  unfold newMask applied portBits
  cases req.act <;> rfl

theorem applied_nonneg (req : Request) (value : Option (List UInt8)) :
    0 ≤ (applied req (portBits value)).toInt := by
  have hport := req.inRange
  apply BitVec.toInt_nonneg_of_msb_false
  rw [BitVec.msb_eq_getLsbD_last, getLsbD_applied, if_neg (by omega),
    ← BitVec.msb_eq_getLsbD_last, msb_portBits]

theorem uciGetInt_newMask (req : Request) (value : Option (List UInt8)) :
    uciGetInt (some (intText (newMask req (uciGetInt value)))) =
      (applied req (portBits value)).toInt := by
  have hnonneg := applied_nonneg req value
  have hlt : (applied req (portBits value)).toInt < 2 ^ 31 := BitVec.toInt_lt
  rw [newMask_eq, uciGetInt_intText (by omega) hlt]

theorem portBits_newMask (req : Request) (value : Option (List UInt8)) :
    portBits (some (intText (newMask req (uciGetInt value)))) = applied req (portBits value) := by
  have hnonneg := applied_nonneg req value
  rw [portBits, uciGetInt_newMask, if_neg (by omega), BitVec.ofInt_toInt]

end Bits

section Refinement

variable {usbSetPort : Request → Int} {req : Bool → Request}

def phaseOf : Point → SharedCell.Phase Int
  | .relay => .start
  | .read => .prepared
  | .write mask => .loaded mask
  | .commit => .stored
  | .finished => .finished

/-- The system as two clients of one cell, the value of `dongleport`. -/
def abstract (s : System) : SharedCell.State (Option (List UInt8)) Int :=
  ⟨s.store.values dongleportKey, fun p => phaseOf (s.point p)⟩

def writeMask (req : Bool → Request) (p : Bool) (mask : Int) : Option (List UInt8) :=
  some (intText (newMask (req p) mask))

theorem phaseOf_update (f : Bool → Point) (p : Bool) (pt : Point) :
    (fun q => phaseOf (Function.update f p pt q)) =
      Function.update (fun q => phaseOf (f q)) p (phaseOf pt) := by
  funext q
  by_cases hq : q = p
  · subst hq
    simp
  · simp [hq]

theorem abstract_goto (s : System) (p : Bool) (pt : Point) :
    abstract (s.goto p pt) =
      ⟨(abstract s).cell, Function.update (abstract s).phase p (phaseOf pt)⟩ := by
  simp only [abstract, System.goto, phaseOf_update]

theorem abstract_step (relays : ∀ p, usbSetPort (req p) = 0) (s : System) (p : Bool) :
    abstract (step usbSetPort req s p) =
      SharedCell.step uciGetInt (writeMask req) (abstract s) p := by
  have hphase : (abstract s).phase p = phaseOf (s.point p) := rfl
  cases hpoint : s.point p with
  | relay =>
    rw [hpoint] at hphase
    simp only [step, hpoint, if_pos (relays p), abstract_goto, SharedCell.step, hphase, phaseOf]
  | read =>
    rw [hpoint] at hphase
    simp only [step, hpoint, abstract_goto, SharedCell.step, hphase, phaseOf]
    rfl
  | write mask =>
    have hstore : abstract (step usbSetPort req s p) =
        { abstract (s.goto p .commit) with cell := writeMask req p mask } := by
      simp [step, hpoint, abstract, uciSetInt, writeMask]
    rw [hpoint] at hphase
    simp only [hstore, abstract_goto, SharedCell.step, hphase, phaseOf]
  | commit =>
    have hstore : abstract (step usbSetPort req s p) = abstract (s.goto p .finished) := by
      simp only [step, hpoint]
      rfl
    rw [hpoint] at hphase
    simp only [hstore, abstract_goto, SharedCell.step, hphase, phaseOf]
  | finished =>
    rw [hpoint] at hphase
    simp only [step, hpoint, SharedCell.step, hphase, phaseOf]

theorem abstract_run (relays : ∀ p, usbSetPort (req p) = 0) (st : UciStore)
    (schedule : List Bool) :
    abstract (run usbSetPort req st schedule) =
      SharedCell.run uciGetInt (writeMask req) (st.values dongleportKey) schedule := by
  induction schedule using List.reverseRecOn with
  | nil => rfl
  | append_singleton schedule p ih =>
    have hrun : run usbSetPort req st (schedule ++ [p]) =
        step usbSetPort req (run usbSetPort req st schedule) p := by simp [run]
    rw [hrun, abstract_step relays, ih, SharedCell.run_snoc]

theorem bothRead_iff (s : System) : BothRead s ↔ SharedCell.BothLoaded (abstract s) := by
  have hpoint : ∀ pt : Point, (∃ mask, pt = .write mask) ↔ ∃ seen, phaseOf pt = .loaded seen := by
    intro pt
    cases pt <;> simp [phaseOf]
  exact forall_congr' fun p => hpoint (s.point p)

theorem finished_iff (s : System) :
    (∀ p, s.point p = .finished) ↔ SharedCell.Finished (abstract s) := by
  have hpoint : ∀ pt : Point, pt = .finished ↔ phaseOf pt = .finished := by
    intro pt
    cases pt <;> simp [phaseOf]
  exact forall_congr' fun p => hpoint (s.point p)

end Refinement

section Lost

variable {req : Bool → Request} {st st' : UciStore}

theorem noLostUpdate_iff_from (distinct : (req false).port ≠ (req true).port) (p : Bool) :
    NoLostUpdate req st st' ↔ ∀ k, (storedBits st').getLsbD k =
      if k + 1 = (req p).port then decide ((req p).act = .on)
      else if k + 1 = (req (!p)).port then decide ((req (!p)).act = .on)
      else (storedBits st).getLsbD k := by
  cases p with
  | false => exact Iff.rfl
  | true =>
    apply forall_congr'
    intro k
    by_cases hfalse : k + 1 = (req false).port
    · have htrue : ¬ k + 1 = (req true).port := fun h => distinct (hfalse.symm.trans h)
      rw [if_pos hfalse, if_neg htrue, Bool.not_true, if_pos hfalse]
    · rw [if_neg hfalse, Bool.not_true, if_neg hfalse]

theorem noLostUpdate_of_both (distinct : (req false).port ≠ (req true).port) {p : Bool}
    (h : storedBits st' = applied (req (!p)) (applied (req p) (storedBits st))) :
    NoLostUpdate req st st' := by
  have hne : (req p).port ≠ (req (!p)).port := by
    cases p with
    | false => exact distinct
    | true => exact distinct.symm
  rw [noLostUpdate_iff_from distinct p, h]
  intro k
  rw [getLsbD_applied, getLsbD_applied]
  by_cases hk : k + 1 = (req p).port
  · rw [if_pos hk, if_neg fun h => hne (hk.symm.trans h), if_pos hk]
  · rw [if_neg hk, if_neg hk]

theorem noLostUpdate_of_second (distinct : (req false).port ≠ (req true).port) {p : Bool}
    (h : storedBits st' = applied (req (!p)) (storedBits st)) :
    NoLostUpdate req st st' ↔ AlreadySo (req p) st := by
  have hne : (req p).port ≠ (req (!p)).port := by
    cases p with
    | false => exact distinct
    | true => exact distinct.symm
  rw [noLostUpdate_iff_from distinct p, h, AlreadySo]
  constructor
  · intro hall
    obtain ⟨hpos, -⟩ := (req p).inRange
    have hport : (req p).port - 1 + 1 = (req p).port := by omega
    have hbit := hall ((req p).port - 1)
    rwa [getLsbD_applied, hport, if_neg hne, if_pos rfl] at hbit
  · intro hbit k
    rw [getLsbD_applied]
    by_cases hk : k + 1 = (req p).port
    · obtain rfl : k = (req p).port - 1 := by omega
      rw [if_neg fun h => hne (hk.symm.trans h), if_pos hk, hbit]
    · rw [if_neg hk]

end Lost

/-- When both processes have finished, no update is lost exactly when each write that is made after
both processes have read asks for a bit that was already so at the start. -/
theorem noLostUpdate_iff {usbSetPort : Request → Int} {req : Bool → Request} {st : UciStore}
    {schedule : List Bool} (relays : ∀ p, usbSetPort (req p) = 0)
    (distinct : (req false).port ≠ (req true).port)
    (finished : ∀ p, (run usbSetPort req st schedule).point p = .finished) :
    NoLostUpdate req st (run usbSetPort req st schedule).store ↔
      ∀ pre p post, schedule = pre ++ p :: post → BothRead (run usbSetPort req st pre) →
        AlreadySo (req p) st := by
  have hrun := abstract_run relays st schedule
  have hoverlap : ∀ p, SharedCell.Overlapped uciGetInt (writeMask req) (st.values dongleportKey)
      schedule p ↔
        ∃ pre post, schedule = pre ++ p :: post ∧ BothRead (run usbSetPort req st pre) := by
    intro p
    simp only [SharedCell.Overlapped, bothRead_iff, abstract_run relays]
  have hcell : (run usbSetPort req st schedule).store.values dongleportKey =
      (SharedCell.run uciGetInt (writeMask req) (st.values dongleportKey) schedule).cell := by
    rw [← hrun]
    rfl
  have hdone := (finished_iff _).mp finished
  rw [hrun] at hdone
  have hupdated : ∀ p value, portBits (SharedCell.updated uciGetInt (writeMask req) p value) =
      applied (req p) (portBits value) := fun p value => portBits_newMask (req p) value
  obtain ⟨p, ⟨hstale, hfinal⟩ | ⟨hnone, hfinal⟩⟩ :=
    SharedCell.cell_of_finished uciGetInt (writeMask req) (st.values dongleportKey) hdone
  · have hsecond : storedBits (run usbSetPort req st schedule).store =
        applied (req (!p)) (storedBits st) := by
      rw [storedBits, hcell, hfinal, hupdated]
      rfl
    rw [noLostUpdate_of_second distinct hsecond]
    constructor
    · intro already pre q post heq hboth
      obtain rfl := (hstale q).mp ((hoverlap q).mpr ⟨pre, post, heq, hboth⟩)
      exact already
    · intro h
      obtain ⟨pre, post, heq, hboth⟩ := (hoverlap p).mp ((hstale p).mpr rfl)
      exact h pre p post heq hboth
  · have hboth : storedBits (run usbSetPort req st schedule).store =
        applied (req (!p)) (applied (req p) (storedBits st)) := by
      rw [storedBits, hcell, hfinal, hupdated, hupdated]
      rfl
    refine ⟨fun _ pre q post heq hread => ?_, fun _ => noLostUpdate_of_both distinct hboth⟩
    exact absurd ((hoverlap q).mpr ⟨pre, post, heq, hread⟩) (hnone q)

def onOne : Request := ⟨.on, 1, by decide⟩

def onTwo : Request := ⟨.on, 2, by decide⟩

def bothOn (p : Bool) : Request := if p then onTwo else onOne

def storeOf (value : List UInt8) : UciStore := ⟨fun _ => some value, fun _ => some value⟩

def turns : List Bool := [false, true, false, true, false, true, false, true]

theorem turns_noLostUpdate_of_set :
    NoLostUpdate bothOn (storeOf (ascii "3"))
      (run (fun _ => 0) bothOn (storeOf (ascii "3")) turns).store := by
  have finished : ∀ p, (run (fun _ => 0) bothOn (storeOf (ascii "3")) turns).point p =
      .finished := by
    intro p
    cases p <;> rfl
  have already : ∀ p, AlreadySo (bothOn p) (storeOf (ascii "3")) := by
    intro p
    cases p <;> exact (by decide +kernel)
  exact (noLostUpdate_iff (fun _ => rfl) (by decide) finished).mpr fun _ p _ _ _ => already p

/-- From an empty mask, with both processes reading before either writes, the first write is lost. -/
theorem interleaved_update_lost :
    ¬ ∀ (req : Bool → Request) (st : UciStore) (schedule : List Bool),
      (req false).port ≠ (req true).port →
        (∀ p, (run (fun _ => 0) req st schedule).point p = .finished) →
          NoLostUpdate req st (run (fun _ => 0) req st schedule).store := by
  intro h
  have finished : ∀ p, (run (fun _ => 0) bothOn (storeOf (ascii "0")) turns).point p =
      .finished := by
    intro p
    cases p <;> rfl
  have hbit := h bothOn (storeOf (ascii "0")) turns (by decide) finished 0
  revert hbit
  decide +kernel

end Evi7688.Azurectl.Dongleport
