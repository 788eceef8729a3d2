/- Evi7688/Lcdsvc/Segmentation
   digest: What the daemon executes of a stream, against how the stream was cut into reads. -/

import Evi7688.Lcdsvc.Service

set_option autoImplicit false
set_option relaxedAutoImplicit false

namespace Evi7688.Lcdsvc.Segmentation

open Evi7688.Library.Bytes (ascii newline)
open Evi7688.Library.Delimited
open Evi7688.Library.Pieces (Delivers)
open LcdHw
open Service

def commandsOf (stream : List UInt8) : List Command := (records newline stream).filterMap named

/-- The connection executes what the lines of the stream name, in order and each once. -/
def ExecutesStream (env : SysfsEnv) (s : Session) (pieces : List (List UInt8))
    (stream : List UInt8) : Prop :=
  (handleClient env pieces s).executed = s.executed ++ commandsOf stream

/-- Every read with a newline in it starts at the start of a line, and has no newline behind a
NUL. -/
def Aligned (pieces : List (List UInt8)) : Prop :=
  ∀ earlier p later, pieces = earlier ++ p :: later → newline ∈ p →
    pending newline earlier.flatten = [] ∧ newline ∉ p.dropWhile (· != 0)

/-- No line names a command, and neither does the end of a line when it fits the line buffer. -/
def Inert (stream : List UInt8) : Prop :=
  ∀ line ∈ records newline stream, named line = none ∧
    ∀ t, t <:+ line → (0 : UInt8) ∉ t → t.length ≤ 510 → named t = none

section Cuts

theorem bufferLines_eq_iff (carry p : List UInt8) :
    bufferLines p = recordsFrom newline carry p ↔
      (newline ∈ p → carry = [] ∧ newline ∉ p.dropWhile (· != 0)) := by
  have hsplit : recordsFrom newline carry p =
      recordsFrom newline carry (p.takeWhile (· != 0)) ++
        recordsFrom newline (pendingFrom newline carry (p.takeWhile (· != 0)))
          (p.dropWhile (· != 0)) := by
    rw [← recordsFrom_append, List.takeWhile_append_dropWhile]
  constructor
  · intro h hmem
    have hlength := congrArg List.length h
    rw [hsplit, bufferLines, records, List.length_append, length_recordsFrom, length_recordsFrom,
      length_recordsFrom] at hlength
    have hdrop : newline ∉ p.dropWhile (· != 0) := List.count_eq_zero.mp (by omega)
    have htake : newline ∈ p.takeWhile (· != 0) := by
      rw [← List.takeWhile_append_dropWhile (l := p) (p := (· != 0)), List.mem_append] at hmem
      exact hmem.resolve_right hdrop
    rw [hsplit, recordsFrom_of_notMem _ hdrop, List.append_nil] at h
    exact ⟨(recordsFrom_eq_records_iff _ _ _).mp h.symm htake, hdrop⟩
  · intro h
    by_cases hmem : newline ∈ p
    · obtain ⟨rfl, hdrop⟩ := h hmem
      rw [hsplit, recordsFrom_of_notMem _ hdrop, List.append_nil]
      rfl
    · have htake : newline ∉ p.takeWhile (· != 0) := fun hm => hmem (List.takeWhile_subset _ hm)
      rw [recordsFrom_of_notMem carry hmem, bufferLines, records, recordsFrom_of_notMem [] htake]

theorem length_bufferLines_le (carry p : List UInt8) :
    (bufferLines p).length ≤ (recordsFrom newline carry p).length := by
  rw [bufferLines, records, length_recordsFrom, length_recordsFrom]
  exact List.Sublist.count_le newline (List.takeWhile_sublist _)

theorem length_dispatched_le (carry : List UInt8) (pieces : List (List UInt8)) :
    (dispatched pieces).length ≤ (recordsFrom newline carry pieces.flatten).length := by
  induction pieces generalizing carry with
  | nil => simp [dispatched]
  | cons p pieces ih =>
    have hlines : dispatched (p :: pieces) = bufferLines p ++ dispatched pieces := rfl
    have hfirst := length_bufferLines_le carry p
    have hrest := ih (pendingFrom newline carry p)
    rw [hlines, List.flatten_cons, recordsFrom_append, List.length_append, List.length_append]
    omega

def AlignedFrom (carry : List UInt8) (pieces : List (List UInt8)) : Prop :=
  ∀ earlier p later, pieces = earlier ++ p :: later → newline ∈ p →
    pendingFrom newline carry earlier.flatten = [] ∧ newline ∉ p.dropWhile (· != 0)

theorem alignedFrom_cons_iff (carry p : List UInt8) (pieces : List (List UInt8)) :
    AlignedFrom carry (p :: pieces) ↔
      (newline ∈ p → carry = [] ∧ newline ∉ p.dropWhile (· != 0)) ∧
        AlignedFrom (pendingFrom newline carry p) pieces := by
  constructor
  · intro h
    refine ⟨fun hmem => h [] p pieces rfl hmem, ?_⟩
    intro earlier q later heq hmem
    have hq := h (p :: earlier) q later (by rw [heq]; rfl) hmem
    rwa [List.flatten_cons, pendingFrom_append] at hq
  · rintro ⟨hfirst, hrest⟩ earlier q later heq hmem
    cases earlier with
    | nil =>
      obtain ⟨rfl, rfl⟩ := List.cons.inj heq
      exact hfirst hmem
    | cons e earlier =>
      obtain ⟨rfl, htail⟩ := List.cons.inj heq
      rw [List.flatten_cons, pendingFrom_append]
      exact hrest earlier q later htail hmem

theorem dispatched_eq_iff (carry : List UInt8) (pieces : List (List UInt8)) :
    dispatched pieces = recordsFrom newline carry pieces.flatten ↔ AlignedFrom carry pieces := by
  induction pieces generalizing carry with
  | nil =>
    refine ⟨fun _ => ?_, fun _ => rfl⟩
    intro earlier p later h
    simp at h
  | cons p pieces ih =>
    have hlines : dispatched (p :: pieces) = bufferLines p ++ dispatched pieces := rfl
    rw [alignedFrom_cons_iff, ← ih, ← bufferLines_eq_iff, hlines, List.flatten_cons,
      recordsFrom_append]
    constructor
    · intro h
      -- No read can find more lines than end in it, so equality holds read by read.
      have hfirst := length_bufferLines_le carry p
      have hrest := length_dispatched_le (pendingFrom newline carry p) pieces
      have htotal := congrArg List.length h
      rw [List.length_append, List.length_append] at htotal
      exact List.append_inj h (by omega)
    · rintro ⟨hfirst, hrest⟩
      rw [hfirst, hrest]

/-- The reads hand over exactly the lines of the stream when, and only when, they are aligned. -/
theorem dispatched_eq_records_iff (pieces : List (List UInt8)) :
    dispatched pieces = records newline pieces.flatten ↔ Aligned pieces :=
  dispatched_eq_iff [] pieces

theorem exists_line_of_mem_dispatched {pieces : List (List UInt8)} {stream : List UInt8}
    (reads : Reads pieces stream) {t : List UInt8} (h : t ∈ dispatched pieces) :
    ∃ line ∈ records newline stream, t <:+ line ∧ (0 : UInt8) ∉ t ∧ t.length ≤ 510 := by
  obtain ⟨p, hp, ht⟩ := List.mem_flatMap.mp h
  obtain ⟨earlier, later, rfl⟩ := List.append_of_mem hp
  obtain ⟨⟨rfl, -⟩, bounded⟩ := reads
  obtain ⟨line, hline, hsuffix⟩ := exists_suffix_of_mem_records earlier.flatten
    (p.takeWhile (· != 0)) (p.dropWhile (· != 0) ++ later.flatten) t ht
  have hwhole : earlier.flatten ++ (p.takeWhile (· != 0) ++
      (p.dropWhile (· != 0) ++ later.flatten)) = (earlier ++ p :: later).flatten := by
    rw [← List.append_assoc (p.takeWhile _), List.takeWhile_append_dropWhile]
    simp
  obtain ⟨pre, post, hfound⟩ := exists_split_of_mem_recordsFrom [] _ t ht
  rw [List.nil_append] at hfound
  refine ⟨line, hwhole ▸ hline, hsuffix, ?_, ?_⟩
  · intro hnul
    have hmem : (0 : UInt8) ∈ p.takeWhile (· != 0) := by
      rw [hfound]
      simp [hnul]
    simpa using List.mem_takeWhile_imp hmem
  · have hlength := congrArg List.length hfound
    have hbound := bounded p hp
    have hle := (List.takeWhile_prefix (l := p) (· != 0)).length_le
    simp only [List.length_append, List.length_cons] at hlength
    omega

def singles (stream : List UInt8) : List (List UInt8) := stream.map fun b => [b]

theorem flatten_singles (stream : List UInt8) : (singles stream).flatten = stream := by
  induction stream with
  | nil => rfl
  | cons b stream ih =>
    have hcons : singles (b :: stream) = [b] :: singles stream := rfl
    rw [hcons, List.flatten_cons, ih, List.singleton_append]

theorem commands_singles (stream : List UInt8) :
    (dispatched (singles stream)).filterMap named = [] := by
  rw [List.filterMap_eq_nil_iff]
  intro line hline
  obtain ⟨p, hp, hfound⟩ := List.mem_flatMap.mp hline
  obtain ⟨b, -, rfl⟩ := List.mem_map.mp hp
  obtain ⟨pre, post, hsplit⟩ := exists_split_of_mem_recordsFrom [] _ line hfound
  have hlength := congrArg List.length hsplit
  have hle := (List.takeWhile_prefix (l := [b]) (· != 0)).length_le
  simp only [List.nil_append, List.length_append, List.length_cons, List.length_nil] at hlength hle
  obtain rfl : line = [] := List.length_eq_zero_iff.mp (by omega)
  decide

theorem reads_singles (stream : List UInt8) : Reads (singles stream) stream := by
  refine ⟨⟨flatten_singles stream, ?_⟩, ?_⟩
  · intro p hp
    obtain ⟨b, -, rfl⟩ := List.mem_map.mp hp
    simp
  · intro p hp
    obtain ⟨b, -, rfl⟩ := List.mem_map.mp hp
    simp

def isolating (before t after : List UInt8) : List (List UInt8) :=
  singles before ++ (t ++ [newline]) :: singles after

theorem reads_isolating (before after : List UInt8) {t : List UInt8} (short : t.length ≤ 510) :
    Reads (isolating before t after) (before ++ (t ++ newline :: after)) := by
  have hbefore := reads_singles before
  have hafter := reads_singles after
  refine ⟨⟨?_, ?_⟩, ?_⟩
  · rw [isolating, List.flatten_append, List.flatten_cons, flatten_singles, flatten_singles,
      List.append_assoc, List.singleton_append]
  · intro p hp
    rcases List.mem_append.mp hp with hp | hp
    · exact hbefore.delivers.nonempty p hp
    · rcases List.mem_cons.mp hp with rfl | hp
      · simp
      · exact hafter.delivers.nonempty p hp
  · intro p hp
    rcases List.mem_append.mp hp with hp | hp
    · exact hbefore.bounded p hp
    · rcases List.mem_cons.mp hp with rfl | hp
      · simp
        omega
      · exact hafter.bounded p hp

theorem commands_isolating (before after : List UInt8) {t : List UInt8} (hnul : (0 : UInt8) ∉ t)
    (hnewline : newline ∉ t) :
    (dispatched (isolating before t after)).filterMap named = [t].filterMap named := by
  have hpieces : dispatched (isolating before t after) =
      dispatched (singles before) ++ ([t] ++ dispatched (singles after)) := by
    rw [isolating, dispatched, List.flatMap_append, List.flatMap_cons,
      bufferLines_line hnewline hnul]
    rfl
  rw [hpieces, List.filterMap_append, List.filterMap_append, commands_singles, commands_singles,
    List.nil_append, List.append_nil]

end Cuts

/-- Execution is right for every cut of a stream exactly when there is nothing in it to execute;
one given cut hands over exactly the lines of the stream when its reads are aligned, and then
executes what they name. -/
theorem execution_iff (env : SysfsEnv) (s : Session) (stream : List UInt8) :
    ((∀ pieces, Reads pieces stream → ExecutesStream env s pieces stream) ↔ Inert stream) ∧
      ∀ pieces, Reads pieces stream →
        (dispatched pieces = records newline stream ↔ Aligned pieces) ∧
          (Aligned pieces → ExecutesStream env s pieces stream) := by
  have executes_iff : ∀ pieces, ExecutesStream env s pieces stream ↔
      (dispatched pieces).filterMap named = commandsOf stream := by
    intro pieces
    rw [ExecutesStream, executed_handleClient, List.append_right_inj]
  refine ⟨⟨?_, ?_⟩, ?_⟩
  · intro h line hline
    have hnone : commandsOf stream = [] := by
      rw [← (executes_iff _).mp (h _ (reads_singles stream)), commands_singles]
    refine ⟨List.filterMap_eq_nil_iff.mp hnone line hline, ?_⟩
    rintro t ⟨front, rfl⟩ hnul hshort
    obtain ⟨pre, post, hsplit⟩ := exists_split_of_mem_recordsFrom [] stream _ hline
    have hnewline : newline ∉ t := fun hm =>
      notMem_of_mem_recordsFrom [] stream (by simp) _ hline (List.mem_append_right _ hm)
    have hstream : stream = (pre ++ front) ++ (t ++ newline :: post) := by
      rw [← List.nil_append stream, hsplit]
      simp
    have hcut : Reads (isolating (pre ++ front) t post) stream := by
      rw [hstream]
      exact reads_isolating _ _ hshort
    have hexecuted := (executes_iff _).mp (h _ hcut)
    rw [commands_isolating _ _ hnul hnewline, hnone, List.filterMap_eq_nil_iff] at hexecuted
    exact hexecuted t List.mem_cons_self
  · intro inert pieces reads
    have hnone : commandsOf stream = [] :=
      List.filterMap_eq_nil_iff.mpr fun line hline => (inert line hline).1
    rw [executes_iff, hnone, List.filterMap_eq_nil_iff]
    intro t ht
    obtain ⟨line, hline, hsuffix, hnul, hshort⟩ := exists_line_of_mem_dispatched reads ht
    exact (inert line hline).2 t hsuffix hnul hshort
  · intro pieces reads
    have hflat := dispatched_eq_records_iff pieces
    rw [reads.delivers.whole] at hflat
    refine ⟨hflat, fun aligned => ?_⟩
    rw [executes_iff, hflat.mpr aligned]
    rfl

theorem straddling_clear_lost :
    ¬ ∀ stream pieces, Reads pieces stream →
      ExecutesStream openEnv ⟨openHost, [], []⟩ pieces stream := by
  intro h
  have hreads : Reads [ascii "CLE", ascii "AR\n"] (ascii "CLEAR\n") := by
    refine ⟨⟨by decide, ?_⟩, ?_⟩
    · simp [ascii]
    · simp [ascii]
  have hexecuted := h _ _ hreads
  rw [ExecutesStream, executed_handleClient] at hexecuted
  revert hexecuted
  decide +kernel

end Evi7688.Lcdsvc.Segmentation
