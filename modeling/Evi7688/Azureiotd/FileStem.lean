/- Evi7688/Azureiotd/FileStem
   digest: The name without extension that is cut out of a path, and when truncation spoils it. -/

import Evi7688.Library.Bytes
import Evi7688.Library.Delimited

set_option autoImplicit false
set_option relaxedAutoImplicit false

namespace Evi7688.Azureiotd.FileStem

open Evi7688.Library.Bytes
open Evi7688.Library.Delimited

def slash : UInt8 := 0x2F

def dot : UInt8 := 0x2E

/-- `strrchr`: where the last occurrence of a character is. -/
def strrchr (c : UInt8) : List UInt8 → Option Nat
  | [] => none
  | b :: text =>
    match strrchr c text with
    | some i => some (i + 1)
    | none => if b = c then some 0 else none

/-- The string `safe_remove_file_ext` leaves in a buffer of `dstsz` bytes. -/
def removeFileExt (dstsz : Nat) (src : List UInt8) : List UInt8 :=
  let tmp := src.take 511
  let base :=
    match strrchr slash tmp with
    | some i => tmp.drop (i + 1)
    | none => tmp
  let dst := base.take (dstsz - 1)
  match strrchr dot dst with
  | some i => dst.take i
  | none => dst

/-- The part of a path after its last slash, without its extension. -/
def stem (src : List UInt8) : List UInt8 := beforeLast dot (afterLast slash src)

theorem strrchr_of_notMem {c : UInt8} {text : List UInt8} (h : c ∉ text) :
    strrchr c text = none := by
  induction text with
  | nil => rfl
  | cons b text ih =>
    rw [List.mem_cons, not_or] at h
    rw [strrchr, ih h.2, if_neg (Ne.symm h.1)]

theorem strrchr_append {c : UInt8} {after : List UInt8} (h : c ∉ after) (before : List UInt8) :
    strrchr c (before ++ c :: after) = some before.length := by
  induction before with
  | nil => rw [List.nil_append, strrchr, strrchr_of_notMem h, if_pos rfl, List.length_nil]
  | cons b before ih => rw [List.cons_append, strrchr, ih, List.length_cons]

/-- Both searches, in the copy and in the destination. -/
theorem removeFileExt_eq (dstsz : Nat) (src : List UInt8) :
    removeFileExt dstsz src =
      beforeLast dot ((afterLast slash (src.take 511)).take (dstsz - 1)) := by
  have hbase : ∀ tmp : List UInt8,
      (match strrchr slash tmp with
        | some i => tmp.drop (i + 1)
        | none => tmp) = afterLast slash tmp := by
    intro tmp
    by_cases h : slash ∈ tmp
    · obtain ⟨before, after, hafter, rfl⟩ := exists_last_of_mem h
      rw [strrchr_append hafter, afterLast_append hafter]
      simp
    · rw [strrchr_of_notMem h, afterLast_of_notMem h]
  have hdst : ∀ dst : List UInt8,
      (match strrchr dot dst with
        | some i => dst.take i
        | none => dst) = beforeLast dot dst := by
    intro dst
    by_cases h : dot ∈ dst
    · obtain ⟨before, after, hafter, rfl⟩ := exists_last_of_mem h
      rw [strrchr_append hafter, beforeLast_append hafter]
      simp
    · rw [strrchr_of_notMem h, beforeLast_of_notMem h]
  simp only [removeFileExt, hbase, hdst]

theorem removeFileExt_subset (dstsz : Nat) (src : List UInt8) : removeFileExt dstsz src ⊆ src := by
  intro b hb
  rw [removeFileExt_eq] at hb
  have hbase := List.mem_of_mem_take ((beforeLast_isPrefix _ _).subset hb)
  exact List.mem_of_mem_take ((afterLast_isSuffix _ _).subset hbase)

/-- `safe_remove_file_ext`. -/
def safeRemoveFileExt (n : Nat) (positive : 0 < n) (src : CString) : CArray n where
  bytes := removeFileExt n src.bytes
  nulFree := fun h => src.nulFree (removeFileExt_subset n src.bytes h)
  fits := by
    have hcut := (beforeLast_isPrefix dot
      ((afterLast slash (src.bytes.take 511)).take (n - 1))).length_le
    have hcopy := List.length_take_le (n - 1) (afterLast slash (src.bytes.take 511))
    rw [removeFileExt_eq]
    omega

/-- How much of a path its directory takes up, the last slash included. -/
def dirLength (src : List UInt8) : Nat := src.length - (afterLast slash src).length

/-- How much of the name behind it `tmp` has room for. -/
def room (src : List UInt8) : Nat := 511 - dirLength src

/-- When the cuts at 511 and at `m` bytes do no harm. If `tmp` holds the last slash, `room` and `m`
make one cut: the stem ends before it, or no dot of the stem does and `m` is what cuts it. If `tmp`
does not, the name that is found in another place must agree by chance. -/
def Harmless (m : Nat) (src : List UInt8) : Prop :=
  if dirLength src ≤ 511 then
    (stem src).length < min (room src) m ∨
      (dot ∉ (stem src).take (min (room src) m) ∧ (m ≤ room src ∨ (stem src).length ≤ room src))
  else
    (dot ∉ (afterLast slash (src.take 511)).take m ∧
        (afterLast slash (src.take 511)).take m = (stem src).take m) ∨
      ∃ rest, dot ∉ rest ∧ (afterLast slash (src.take 511)).take m = stem src ++ dot :: rest

theorem name_of_slash_copied {src : List UInt8} (h : dirLength src ≤ 511) (m : Nat) :
    (afterLast slash (src.take 511)).take m = (afterLast slash src).take (min (room src) m) := by
  rw [afterLast_take h, List.take_take, Nat.min_comm]
  rfl

theorem beforeLast_take_eq_iff {name : List UInt8} {n m r : Nat} (hn : n = min r m) :
    beforeLast dot (name.take n) = (beforeLast dot name).take m ↔
      (beforeLast dot name).length < n ∨
        (dot ∉ (beforeLast dot name).take n ∧ (m ≤ r ∨ (beforeLast dot name).length ≤ r)) := by
  rw [beforeLast_take]
  by_cases hshort : (beforeLast dot name).length < n
  · rw [if_pos hshort, List.take_of_length_le (by omega)]
    exact iff_of_true rfl (Or.inl hshort)
  · rw [if_neg hshort]
    generalize beforeLast dot name = s at hshort
    constructor
    · intro heq
      have hlen := congrArg List.length heq
      by_cases hdot : dot ∈ s.take n
      · have hlt := length_beforeLast_lt hdot
        simp only [List.length_take] at hlen hlt
        omega
      · rw [beforeLast_of_notMem hdot] at hlen
        simp only [List.length_take] at hlen
        exact Or.inr ⟨hdot, by omega⟩
    · rintro (hlt | ⟨hdot, hroom⟩)
      · exact absurd hlt hshort
      · rw [beforeLast_of_notMem hdot]
        by_cases hm : m ≤ r
        · rw [hn, Nat.min_eq_right hm]
        · have hs := hroom.resolve_left hm
          rw [List.take_of_length_le (by omega), List.take_of_length_le (by omega)]

theorem beforeLast_eq_take_iff {copied s : List UInt8} {m : Nat} (hle : copied.length ≤ m) :
    beforeLast dot copied = s.take m ↔
      (dot ∉ copied ∧ copied = s.take m) ∨ ∃ rest, dot ∉ rest ∧ copied = s ++ dot :: rest := by
  by_cases hdot : dot ∈ copied
  · obtain ⟨before, after, hafter, rfl⟩ := exists_last_of_mem hdot
    rw [List.length_append, List.length_cons] at hle
    rw [beforeLast_append hafter]
    constructor
    · intro heq
      have hlen := congrArg List.length heq
      rw [List.length_take] at hlen
      rw [List.take_of_length_le (by omega)] at heq
      exact Or.inr ⟨after, hafter, by rw [heq]⟩
    · rintro (⟨hnone, -⟩ | ⟨rest, hrest, heq⟩)
      · exact absurd hdot hnone
      · have hstem := congrArg (beforeLast dot) heq
        rw [beforeLast_append hafter, beforeLast_append hrest] at hstem
        rw [← hstem, List.take_of_length_le (by omega)]
  · rw [beforeLast_of_notMem hdot]
    constructor
    · exact fun heq => Or.inl ⟨hdot, heq⟩
    · rintro (⟨-, heq⟩ | ⟨rest, -, rfl⟩)
      · exact heq
      · exact absurd (by simp) hdot

theorem harmless_of_short {src : List UInt8} (h : src.length ≤ 511) (m : Nat) :
    Harmless m src ↔ (stem src).length < m ∨ dot ∉ (stem src).take m := by
  have hname := (afterLast_isSuffix slash src).length_le
  have hstem : (stem src).length ≤ (afterLast slash src).length :=
    (beforeLast_isPrefix dot (afterLast slash src)).length_le
  have hdir : dirLength src = src.length - (afterLast slash src).length := rfl
  have hroom : room src = 511 - dirLength src := rfl
  have htake : (stem src).take (min (room src) m) = (stem src).take m := by
    rcases Nat.le_total m (room src) with hm | hm
    · rw [Nat.min_eq_right hm]
    · rw [List.take_of_length_le (by omega), List.take_of_length_le (by omega)]
  rw [Harmless, if_pos (by omega), htake]
  constructor
  · rintro (hlt | ⟨hdot, -⟩)
    · exact Or.inl (by omega)
    · exact Or.inr hdot
  · rintro (hlt | hdot)
    · by_cases hfull : (stem src).length < room src
      · exact Or.inl (by omega)
      · -- the name fills `tmp` to its end, so it has no extension
        have hplain : dot ∉ afterLast slash src := by
          intro hmem
          have hshorter : (stem src).length < (afterLast slash src).length :=
            length_beforeLast_lt hmem
          omega
        have hall : stem src = afterLast slash src := beforeLast_of_notMem hplain
        exact Or.inr ⟨fun hmem => hplain (hall ▸ List.mem_of_mem_take hmem), Or.inr (by omega)⟩
    · exact Or.inr ⟨hdot, Or.inr (by omega)⟩

/-- The destination holds the first bytes of the stem exactly when no cut does harm. -/
theorem safeRemoveFileExt_iff (dstsz : Nat) (positive : 0 < dstsz) (src : CString) :
    (safeRemoveFileExt dstsz positive src).bytes = (stem src.bytes).take (dstsz - 1) ↔
      Harmless (dstsz - 1) src.bytes := by
  have hbytes : (safeRemoveFileExt dstsz positive src).bytes =
      beforeLast dot ((afterLast slash (src.bytes.take 511)).take (dstsz - 1)) :=
    removeFileExt_eq dstsz src.bytes
  rw [hbytes, Harmless]
  split_ifs with hslash
  · rw [name_of_slash_copied hslash]
    exact beforeLast_take_eq_iff rfl
  · exact beforeLast_eq_take_iff (List.length_take_le _ _)

theorem archive_iff :
    (safeRemoveFileExt 9 (by decide) (literal "/mnt/archive.tar.gz")).bytes =
        (stem (literal "/mnt/archive.tar.gz").bytes).take 8 ↔
      Harmless 8 (literal "/mnt/archive.tar.gz").bytes :=
  safeRemoveFileExt_iff 9 (by decide) (literal "/mnt/archive.tar.gz")

/-- A destination of nine bytes ends in the first dot of the name, which then counts as its last. -/
theorem archive_loses_dot :
    (safeRemoveFileExt 9 (by decide) (literal "/mnt/archive.tar.gz")).bytes ≠
      (stem (literal "/mnt/archive.tar.gz").bytes).take 8 := by
  decide

end Evi7688.Azureiotd.FileStem
