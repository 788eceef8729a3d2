/- Evi7688/Azurectl/ReadLoop
   digest: The read loop of usb_set_port on its buffer of 128 bytes, index by index. -/

import Evi7688.Azurectl.UsbDongle

set_option autoImplicit false
set_option relaxedAutoImplicit false

namespace Evi7688.Azurectl.ReadLoop

open Evi7688.Library.Bytes (newline)
open UsbDongle (readAnswer)

/-- What waits for one `serial_read`: an error, nothing, or bytes of which it takes what it asked
for. -/
inductive Outcome
  | error
  | nothing
  | bytes (bs : List UInt8)

def Outcome.waiting : Outcome → List UInt8
  | .error => []
  | .nothing => []
  | .bytes bs => bs

/-- The return value of `serial_read`, and the bytes it stores. -/
def serialRead (o : Outcome) (size : Nat) : Int × List UInt8 :=
  match o with
  | .error => (-1, [])
  | .nothing => (0, [])
  | .bytes bs => ((bs.take size).length, bs.take size)

/-- The widths of `size_t` on the device and on a 64-bit host. -/
inductive Abi
  | ilp32 | lp64

def Abi.sizeBits : Abi → Nat
  | .ilp32 => 32
  | .lp64 => 64

/-- `sizeof(resp) - total`: the signed `total` is converted, and the difference wraps around. -/
def Abi.request (abi : Abi) (total : Int) : Nat := ((128 - total) % 2 ^ abi.sizeBits).toNat

structure Read where
  offset : Int
  size : Nat
  bytes : List UInt8

/-- The variables of the loop, the reads it made, and the indices of `resp` that were written or
inspected. -/
structure LoopState where
  resp : Int → UInt8
  total : Int
  lines : Int
  done : Bool
  reads : List Read
  touched : List Int

def LoopState.initial : LoopState := ⟨fun _ => 0, 0, 0, false, [], []⟩

def store (resp : Int → UInt8) (offset : Int) (bytes : List UInt8) : Int → UInt8 := fun i =>
  if offset ≤ i ∧ i < offset + bytes.length then bytes.getD (i - offset).toNat 0 else resp i

def indices (offset : Int) (n : Nat) : List Int := (List.range n).map fun (i : Nat) => offset + i

/-- The loop over the new bytes that counts the line feeds. -/
def scan (resp : Int → UInt8) (total : Int) (n : Nat) (lines : Int) : Int :=
  (List.range n).foldl
    (fun lines (i : Nat) => if resp (total + i) = newline then lines + 1 else lines) lines

/-- One round of the loop, unless it was left. -/
def round (abi : Abi) (o : Outcome) (s : LoopState) : LoopState :=
  if s.done then s
  else
    let size := abi.request s.total
    let n := (serialRead o size).1
    let bytes := (serialRead o size).2
    let resp := store s.resp s.total bytes
    let reads := s.reads ++ [⟨s.total, size, bytes⟩]
    let stored := s.touched ++ indices s.total bytes.length
    if 0 < n then
      let lines := scan resp s.total n.toNat s.lines
      let total := s.total + n
      { resp := resp
        total := total
        lines := lines
        done := (40 ≤ total && 4 ≤ lines) || 128 ≤ total
        reads := reads
        touched := stored ++ indices s.total n.toNat }
    else
      { s with resp := resp, done := 40 ≤ s.total, reads := reads, touched := stored }

def rounds (abi : Abi) (outcome : Nat → Outcome) : Nat → LoopState
  | 0 => .initial
  | t + 1 => round abi (outcome t) (rounds abi outcome t)

def readLoop (abi : Abi) (outcome : Nat → Outcome) : LoopState := rounds abi outcome 20

def bytesOf (reads : List Read) : List UInt8 := reads.flatMap Read.bytes

/-- What the loop keeps true. -/
structure Inv (s : LoopState) : Prop where
  total : s.total = (bytesOf s.reads).length
  lines : s.lines = (bytesOf s.reads).count newline
  requests : ∀ earlier r later, s.reads = earlier ++ r :: later →
    r.offset = ((bytesOf earlier).length : Int) ∧ 1 ≤ r.size ∧ (r.size : Int) ≤ 128 - r.offset
  touched : ∀ i ∈ s.touched, 0 ≤ i ∧ i < 128
  room : s.done = false → s.total < 128

theorem serialRead_fst (o : Outcome) (size : Nat) :
    0 < (serialRead o size).1 ↔ (serialRead o size).2 ≠ [] := by
  cases o with
  | error => simp [serialRead]
  | nothing => simp [serialRead]
  | bytes bs =>
    simp only [serialRead, Int.natCast_pos, List.length_pos_iff]

theorem serialRead_snd (o : Outcome) (size : Nat) :
    (serialRead o size).2 = o.waiting.take size := by
  cases o <;> simp [serialRead, Outcome.waiting]

theorem serialRead_length {o : Outcome} {size : Nat} (h : 0 < (serialRead o size).1) :
    (serialRead o size).1 = (serialRead o size).2.length := by
  cases o with
  | error => exact absurd h (show ¬ (0 : Int) < -1 by decide)
  | nothing => exact absurd h (Int.lt_irrefl 0)
  | bytes bs => rfl

theorem request_eq (abi : Abi) {total : Nat} (h : total ≤ 128) :
    abi.request total = 128 - total := by
  have hwide : (2 : Int) ^ 32 ≤ 2 ^ abi.sizeBits := by
    cases abi
    · exact le_refl _
    · decide
  rw [Abi.request, Int.emod_eq_of_lt (by omega) (by omega)]
  omega

theorem mem_indices {offset i : Int} {n : Nat} (h : i ∈ indices offset n) :
    offset ≤ i ∧ i < offset + n := by
  obtain ⟨k, hk, rfl⟩ := List.mem_map.mp h
  rw [List.mem_range] at hk
  omega

theorem store_apply (resp : Int → UInt8) (offset : Int) (bytes : List UInt8) {i : Nat}
    (h : i < bytes.length) : store resp offset bytes (offset + i) = bytes[i] := by
  have hindex : (offset + i - offset).toNat = i := by omega
  rw [store, if_pos (by omega), hindex, List.getD_eq_getElem?_getD, List.getElem?_eq_getElem h]
  rfl

theorem scan_eq {resp : Int → UInt8} {total : Int} (lines : Int) {bytes : List UInt8}
    (stored : ∀ i, (h : i < bytes.length) → resp (total + i) = bytes[i]) :
    scan resp total bytes.length lines = lines + bytes.count newline := by
  induction bytes using List.reverseRecOn with
  | nil => simp [scan]
  | append_singleton bytes b ih =>
    have hlast : resp (total + bytes.length) = b := by
      have hb := stored bytes.length (by simp)
      simpa using hb
    have hinit := ih fun i h => by
      have hi := stored i (by rw [List.length_append]; omega)
      rwa [List.getElem_append_left h] at hi
    rw [scan] at hinit
    rw [scan, List.length_append, List.length_singleton, List.range_succ, List.foldl_append, hinit,
      List.foldl_cons, List.foldl_nil, hlast, List.count_append, List.count_singleton]
    by_cases hb : b = newline
    · rw [if_pos hb, if_pos (beq_iff_eq.mpr hb)]
      omega
    · rw [if_neg hb, if_neg (by simpa using hb)]
      omega

theorem bytesOf_snoc (reads : List Read) (r : Read) :
    bytesOf (reads ++ [r]) = bytesOf reads ++ r.bytes := by
  simp [bytesOf]

theorem round_of_done {abi : Abi} {o : Outcome} {s : LoopState} (h : s.done = true) :
    round abi o s = s := by
  rw [round, if_pos h]

/-- What a read takes that is made with `t` bytes in the buffer. -/
def taken (o : Outcome) (t : Nat) : List UInt8 := o.waiting.take (128 - t)

/-- One round that is reached with `t` bytes in the buffer: the request is for the rest of it, and
what is read is stored, scanned and counted. -/
structure Rounded (o : Outcome) (t : Nat) (s s' : LoopState) : Prop where
  reads : s'.reads = s.reads ++ [⟨t, 128 - t, taken o t⟩]
  total : s'.total = t + (taken o t).length
  lines : s'.lines = s.lines + (taken o t).count newline
  touched : ∀ i ∈ s'.touched, i ∈ s.touched ∨ (t ≤ i ∧ i < t + (taken o t).length)
  done : s'.done = if taken o t ≠ [] then
      (40 ≤ s'.total && 4 ≤ s'.lines) || 128 ≤ s'.total
    else 40 ≤ s'.total

section OneRound

variable (abi : Abi) {o : Outcome} {s : LoopState} {t : Nat}

theorem round_of_bytes (htotal : s.total = t) (room : t < 128) (running : s.done = false)
    (hread : taken o t ≠ []) :
    round abi o s =
      { resp := store s.resp t (taken o t)
        total := t + (taken o t).length
        lines := s.lines + (taken o t).count newline
        done := (40 ≤ (t + (taken o t).length : Int) &&
          4 ≤ s.lines + (taken o t).count newline) || 128 ≤ (t + (taken o t).length : Int)
        reads := s.reads ++ [⟨t, 128 - t, taken o t⟩]
        touched := s.touched ++ indices t (taken o t).length ++ indices t (taken o t).length } := by
  have hrequest := request_eq abi (show t ≤ 128 by omega)
  have hbytes : (serialRead o (128 - t)).2 = taken o t := serialRead_snd o (128 - t)
  have hpositive := (serialRead_fst o (128 - t)).mpr (by rwa [hbytes])
  have hlength := serialRead_length hpositive
  rw [hbytes] at hlength
  rw [hlength] at hpositive
  have hscan := scan_eq s.lines fun i h => store_apply s.resp t (taken o t) h
  simp only [round, running, htotal, hrequest, hbytes, hlength, if_pos hpositive,
    Int.toNat_natCast, hscan, Bool.false_eq_true, if_false]

theorem round_of_silence (htotal : s.total = t) (room : t < 128) (running : s.done = false)
    (hread : taken o t = []) :
    round abi o s =
      { s with
        resp := store s.resp t []
        done := 40 ≤ s.total
        reads := s.reads ++ [⟨t, 128 - t, []⟩]
        touched := s.touched ++ indices t 0 } := by
  have hrequest := request_eq abi (show t ≤ 128 by omega)
  have hbytes : (serialRead o (128 - t)).2 = taken o t := serialRead_snd o (128 - t)
  have hnone : ¬ 0 < (serialRead o (128 - t)).1 := by
    rw [serialRead_fst, hbytes, hread]
    exact not_not.mpr rfl
  simp only [round, running, htotal, hrequest, hbytes, hread, if_neg hnone, List.length_nil,
    Bool.false_eq_true, if_false]

theorem round_rounded (htotal : s.total = t) (room : t < 128) (running : s.done = false) :
    Rounded o t s (round abi o s) := by
  by_cases hread : taken o t = []
  · rw [round_of_silence abi htotal room running hread]
    refine ⟨by rw [hread], by simpa [hread] using htotal, by simp [hread], ?_, by simp [hread]⟩
    intro i hi
    exact Or.inl (by simpa [indices] using hi)
  · rw [round_of_bytes abi htotal room running hread]
    refine ⟨rfl, rfl, rfl, ?_, (if_pos hread).symm⟩
    intro i hi
    simp only [List.append_assoc, List.mem_append] at hi
    rcases hi with hold | hi | hi
    · exact Or.inl hold
    · exact Or.inr (mem_indices hi)
    · exact Or.inr (mem_indices hi)

end OneRound

theorem Inv.round {s : LoopState} (inv : Inv s) (abi : Abi) (o : Outcome) :
    Inv (round abi o s) := by
  cases hdone : s.done with
  | true => rwa [round_of_done hdone]
  | false =>
    have hroom := inv.room hdone
    have htotal := inv.total
    have hrounded : Rounded o _ s _ := round_rounded abi htotal (by omega) hdone
    have hfits : (taken o (bytesOf s.reads).length).length ≤ 128 - (bytesOf s.reads).length :=
      List.length_take_le _ _
    refine ⟨?_, ?_, ?_, ?_, ?_⟩
    · rw [hrounded.total, hrounded.reads, bytesOf_snoc, List.length_append]
      exact (Int.natCast_add _ _).symm
    · rw [hrounded.lines, hrounded.reads, bytesOf_snoc, List.count_append, inv.lines]
      exact (Int.natCast_add _ _).symm
    · intro earlier r later hsplit
      rw [hrounded.reads] at hsplit
      rcases List.eq_nil_or_concat later with rfl | ⟨later, last, rfl⟩
      · obtain ⟨rfl, hr⟩ := List.append_inj' hsplit rfl
        obtain rfl := (List.cons.inj hr).1
        exact ⟨rfl, by simp only; omega, by simp only; omega⟩
      · rw [List.concat_eq_append, ← List.cons_append, ← List.append_assoc] at hsplit
        exact inv.requests earlier r later (List.append_inj' hsplit rfl).1
    · intro i hi
      rcases hrounded.touched i hi with hold | hnew
      · exact inv.touched i hold
      · omega
    · intro hrunning
      rw [hrounded.done] at hrunning
      have htotal' := hrounded.total
      split_ifs at hrunning with hread
      · simp only [Bool.or_eq_false_iff, decide_eq_false_iff_not] at hrunning
        omega
      · simp only [decide_eq_false_iff_not] at hrunning
        omega

theorem inv_initial : Inv .initial where
  total := rfl
  lines := rfl
  requests := by
    intro earlier r later h
    exact absurd h (by simp [LoopState.initial])
  touched := fun i hi => absurd hi List.not_mem_nil
  room := fun _ => by decide

theorem inv_rounds (abi : Abi) (outcome : Nat → Outcome) (t : Nat) :
    Inv (rounds abi outcome t) := by
  induction t with
  | zero => exact inv_initial
  | succ t ih => exact ih.round abi (outcome t)

theorem length_reads_round (abi : Abi) (o : Outcome) (s : LoopState) :
    (round abi o s).reads.length ≤ s.reads.length + 1 := by
  simp only [round]
  split_ifs <;> simp

theorem length_reads_rounds (abi : Abi) (outcome : Nat → Outcome) (t : Nat) :
    (rounds abi outcome t).reads.length ≤ t := by
  induction t with
  | zero => exact Nat.le_refl 0
  | succ t ih =>
    have hround := length_reads_round abi (outcome t) (rounds abi outcome t)
    exact hround.trans (by omega)

theorem rounds_of_done {abi : Abi} {outcome : Nat → Outcome} {i : Nat}
    (h : (rounds abi outcome i).done = true) (k : Nat) :
    rounds abi outcome (i + k) = rounds abi outcome i := by
  induction k with
  | zero => rfl
  | succ k ih =>
    have hstep : rounds abi outcome (i + (k + 1)) =
        round abi (outcome (i + k)) (rounds abi outcome (i + k)) := rfl
    rw [hstep, ih, round_of_done h]

/-- The loop is left with `got` in the buffer, of which `fresh` came last. -/
def Leaves (got fresh : List UInt8) : Prop :=
  (40 ≤ got.length ∧ (fresh = [] ∨ 4 ≤ got.count newline)) ∨ 128 ≤ got.length

theorem rounds_succ {abi : Abi} {outcome : Nat → Outcome} {i : Nat} {got : List UInt8}
    (hgot : bytesOf (rounds abi outcome i).reads = got)
    (running : (rounds abi outcome i).done = false) :
    bytesOf (rounds abi outcome (i + 1)).reads = got ++ taken (outcome i) got.length ∧
      ((rounds abi outcome (i + 1)).done = true ↔
        Leaves (got ++ taken (outcome i) got.length) (taken (outcome i) got.length)) := by
  have inv := inv_rounds abi outcome i
  have inv' := inv_rounds abi outcome (i + 1)
  have hroom := inv.room running
  have htotal := inv.total
  rw [hgot] at htotal
  have hrounded : Rounded (outcome i) got.length (rounds abi outcome i)
      (rounds abi outcome (i + 1)) := round_rounded abi htotal (by omega) running
  have hbytes : bytesOf (rounds abi outcome (i + 1)).reads =
      got ++ taken (outcome i) got.length := by
    rw [hrounded.reads, bytesOf_snoc, hgot]
  have hdone := hrounded.done
  rw [inv'.total, inv'.lines, hbytes] at hdone
  refine ⟨hbytes, ?_⟩
  rw [hdone, Leaves]
  split_ifs with hread
  · simp only [Bool.or_eq_true, Bool.and_eq_true, decide_eq_true_eq, hread, false_or]
    omega
  · simp only [decide_eq_true_eq, not_not.mp hread, true_or, and_true]
    omega

/-- The rounds collect what the loop on byte strings does. -/
theorem bytesOf_rounds (abi : Abi) (outcome : Nat → Outcome) (tries i : Nat)
    (running : (rounds abi outcome i).done = false) :
    bytesOf (rounds abi outcome (i + tries)).reads =
      readAnswer (fun j => (outcome j).waiting) tries i (bytesOf (rounds abi outcome i).reads) := by
  induction tries generalizing i with
  | zero => rfl
  | succ tries ih =>
    generalize hgot : bytesOf (rounds abi outcome i).reads = got
    obtain ⟨hbytes, hdone⟩ := rounds_succ hgot running
    have htaken : (outcome i).waiting.take (128 - got.length) = taken (outcome i) got.length := rfl
    have left : Leaves (got ++ taken (outcome i) got.length) (taken (outcome i) got.length) →
        bytesOf (rounds abi outcome (i + 1 + tries)).reads =
          got ++ taken (outcome i) got.length := by
      intro h
      rw [rounds_of_done (hdone.mpr h), hbytes]
    have stays : ¬ Leaves (got ++ taken (outcome i) got.length) (taken (outcome i) got.length) →
        bytesOf (rounds abi outcome (i + 1 + tries)).reads =
          readAnswer (fun j => (outcome j).waiting) tries (i + 1)
            (got ++ taken (outcome i) got.length) := by
      intro h
      rw [ih (i + 1) (Bool.eq_false_iff.mpr (mt hdone.mp h)), hbytes]
    have hsplit : i + (tries + 1) = i + 1 + tries := by omega
    rw [hsplit, readAnswer, htaken]
    split_ifs with hread henough hfull hlong
    · exact left (Or.inl ⟨henough.1, Or.inr henough.2⟩)
    · exact left (Or.inr hfull)
    · apply stays
      rintro (⟨hmin, hnone | hfour⟩ | hmost)
      · exact hread hnone
      · exact henough ⟨hmin, hfour⟩
      · exact hfull hmost
    · have hnil := not_not.mp hread
      rw [hnil, List.append_nil] at left
      exact left (Or.inl ⟨hlong, Or.inl rfl⟩)
    · have hnil := not_not.mp hread
      rw [hnil, List.append_nil] at stays
      apply stays
      rintro (⟨hmin, -⟩ | hmost)
      · exact hlong hmin
      · omega

theorem bytesOf_rounds_initial (abi : Abi) (outcome : Nat → Outcome) (t : Nat) :
    bytesOf (rounds abi outcome t).reads =
      readAnswer (fun j => (outcome j).waiting) t 0 [] := by
  have hbytes := bytesOf_rounds abi outcome t 0 rfl
  rwa [Nat.zero_add] at hbytes

theorem readLoop_total (abi : Abi) (outcome : Nat → Outcome) :
    (readLoop abi outcome).total =
      ((readAnswer (fun j => (outcome j).waiting) 20 0 []).length : Int) := by
  rw [readLoop, (inv_rounds abi outcome 20).total, bytesOf_rounds_initial]

/-- Whatever `serial_read` comes back with, the loop keeps its invariant in every round, it makes
at most 20 reads, and they bring what the loop on byte strings collects. -/
theorem readLoop_safe (abi : Abi) (outcome : Nat → Outcome) :
    (∀ t, Inv (rounds abi outcome t)) ∧ (readLoop abi outcome).reads.length ≤ 20 ∧
      ∀ t, bytesOf (rounds abi outcome t).reads =
        readAnswer (fun j => (outcome j).waiting) t 0 [] :=
  ⟨inv_rounds abi outcome, length_reads_rounds abi outcome 20, bytesOf_rounds_initial abi outcome⟩

end Evi7688.Azurectl.ReadLoop
