/- Evi7688/Python/SubscribeC2d
   digest: The message generator of `evi_azure.py`, and for which reads it yields every message. -/

import Evi7688.Library.Delimited
import Evi7688.Library.Pieces
import Evi7688.Library.PyText

set_option autoImplicit false
set_option relaxedAutoImplicit false

namespace Evi7688.Python.SubscribeC2d

open Evi7688.Library.Bytes (ascii newline)
open Evi7688.Library.Delimited
open Evi7688.Library.Pieces (Delivers)
open Evi7688.Library.PyText

/-- The inner loop on `buf`: the lines it yields and what stays in `buf`; `fuel` bounds its rounds. -/
def splitLines : Nat → List UInt8 → List PyStr × List UInt8
  | 0, buf => ([], buf)
  | fuel + 1, buf =>
    if newline ∈ buf then
      let r := splitLines fuel (buf.dropWhile (· != newline)).tail
      (decodeIgnore (buf.takeWhile (· != newline)) :: r.1, r.2)
    else ([], buf)

/-- The outer loop: `pieces` are the results of `recv(4096)`, and then the connection is closed. -/
def receiveLoop : List (List UInt8) → List UInt8 → List PyStr
  | [], _ => []
  | ch :: pieces, buf =>
    if ch = [] then []
    else
      let r := splitLines (buf ++ ch).length (buf ++ ch)
      r.1 ++ receiveLoop pieces r.2

/-- `subscribe_c2d` on the results of its `recv` calls; that of the first one is dropped. -/
def subscribeC2d (pieces : List (List UInt8)) : List PyStr := receiveLoop pieces.tail []

/-- What `recv(64)` and then `recv(4096)` may return for a stream. -/
structure Receives (pieces : List (List UInt8)) (stream : List UInt8) : Prop where
  delivers : Delivers pieces stream
  first : (pieces.headD []).length ≤ 64
  others : ∀ p ∈ pieces.tail, p.length ≤ 4096

def acknowledgement : List UInt8 := ascii "OK\n"

theorem splitLines_eq (fuel : Nat) (buf : List UInt8) (enough : buf.length ≤ fuel) :
    splitLines fuel buf = ((records newline buf).map decodeIgnore, pending newline buf) := by
  induction fuel generalizing buf with
  | zero =>
    obtain rfl : buf = [] := List.length_eq_zero_iff.mp (by omega)
    rfl
  | succ fuel ih =>
    by_cases hmem : newline ∈ buf
    · obtain ⟨ln, rest, hln, rfl⟩ := exists_record_of_mem hmem
      have hrest := ih rest (by simp only [List.length_append, List.length_cons] at enough; omega)
      simp only [splitLines, if_pos hmem, takeWhile_record hln, dropWhile_record hln,
        List.tail_cons, hrest, records_record _ hln, pending_record _ hln, List.map_cons]
    · rw [splitLines, if_neg hmem, records, recordsFrom_of_notMem _ hmem, pending,
        pendingFrom_of_notMem _ hmem]
      rfl

theorem receiveLoop_eq (pieces : List (List UInt8)) (buf : List UInt8) (hbuf : newline ∉ buf)
    (nonempty : ∀ p ∈ pieces, p ≠ []) :
    receiveLoop pieces buf = (recordsFrom newline buf pieces.flatten).map decodeIgnore := by
  induction pieces generalizing buf with
  | nil => rfl
  | cons ch pieces ih =>
    have hch : ch ≠ [] := nonempty ch List.mem_cons_self
    have hstream : recordsFrom newline buf (ch :: pieces).flatten =
        records newline (buf ++ ch) ++
          recordsFrom newline (pending newline (buf ++ ch)) pieces.flatten := by
      rw [List.flatten_cons, recordsFrom_eq_records_append _ _ hbuf, ← List.append_assoc, records,
        recordsFrom_append]
      rfl
    have hrest := ih (pending newline (buf ++ ch)) (notMem_pendingFrom _ _ _ List.not_mem_nil)
      fun p hp => nonempty p (List.mem_cons_of_mem _ hp)
    simp only [receiveLoop, if_neg hch, splitLines_eq _ _ le_rfl, hrest, hstream, List.map_append]

theorem subscribeC2d_eq {pieces : List (List UInt8)} {stream : List UInt8}
    (h : Delivers pieces stream) :
    subscribeC2d pieces =
      (records newline (stream.drop (pieces.headD []).length)).map decodeIgnore := by
  obtain ⟨rfl, nonempty⟩ := h
  have htail : pieces.flatten.drop (pieces.headD []).length = pieces.tail.flatten := by
    cases pieces with
    | nil => rfl
    | cons p pieces => simp
  rw [subscribeC2d, receiveLoop_eq _ _ List.not_mem_nil fun p hp => nonempty p (List.mem_of_mem_tail hp),
    htail]
  rfl

theorem length_head_le {pieces : List (List UInt8)} {stream : List UInt8}
    (h : Delivers pieces stream) : (pieces.headD []).length ≤ stream.length := by
  rw [← h.whole]
  cases pieces with
  | nil => exact le_rfl
  | cons p pieces =>
    rw [List.headD_cons, List.flatten_cons, List.length_append]
    omega

section Acknowledged

variable {lines : List (List UInt8)} (whole : ∀ l ∈ lines, newline ∉ l)

include whole

theorem records_short {n : Nat} (hn : n < 3) :
    (records newline ((acknowledgement ++ delimit newline lines).drop n)).length =
      lines.length + 1 := by
  have hrest : (acknowledgement ++ delimit newline lines).drop n =
      (ascii "OK").drop n ++ newline :: delimit newline lines := by
    have hack : acknowledgement ++ delimit newline lines =
        ascii "OK" ++ newline :: delimit newline lines := rfl
    have hlength : (ascii "OK").length = 2 := rfl
    rw [hack, List.drop_append_of_le_length (by omega)]
  have hplain : newline ∉ (ascii "OK").drop n := fun hmem =>
    absurd (List.mem_of_mem_drop hmem) (by decide)
  rw [hrest, records_record _ hplain, records_delimit whole, List.length_cons]

theorem records_long {l : List UInt8} {ls : List (List UInt8)} (hlines : lines = l :: ls) (k : Nat) :
    (records newline ((delimit newline lines).drop k)).map decodeIgnore = lines.map decodeIgnore ↔
      k ≤ l.length ∧ decodeIgnore (l.drop k) = decodeIgnore l := by
  subst hlines
  have hl : newline ∉ l := whole l List.mem_cons_self
  have hls : ∀ r ∈ ls, newline ∉ r := fun r hr => whole r (List.mem_cons_of_mem _ hr)
  by_cases hk : k ≤ l.length
  · have hrest : (delimit newline (l :: ls)).drop k =
        l.drop k ++ newline :: delimit newline ls := by
      rw [delimit_cons, List.drop_append_of_le_length hk]
    have hplain : newline ∉ l.drop k := fun hmem => hl (List.mem_of_mem_drop hmem)
    rw [hrest, records_record _ hplain, records_delimit hls, List.map_cons, List.map_cons,
      List.cons.injEq]
    simp [hk]
  · have hrest : (delimit newline (l :: ls)).drop k =
        (delimit newline ls).drop (k - (l.length + 1)) := by
      rw [delimit_cons, List.drop_append, List.drop_eq_nil_of_le (by omega), List.nil_append,
        show k - l.length = k - (l.length + 1) + 1 by omega, List.drop_succ_cons]
    have hfewer := length_records_delimit_drop hls (k - (l.length + 1))
    constructor
    · intro h
      have hlength := congrArg List.length h
      rw [hrest, List.length_map, List.length_map, List.length_cons] at hlength
      omega
    · exact fun h => absurd h.1 hk

end Acknowledged

/-- Every message is yielded exactly if the first read takes the acknowledgement and, besides it,
at most leading bytes of the first message that decode to nothing. -/
theorem yields_iff {lines : List (List UInt8)} (whole : ∀ l ∈ lines, newline ∉ l)
    {pieces : List (List UInt8)} (h : Receives pieces (acknowledgement ++ delimit newline lines)) :
    subscribeC2d pieces = lines.map decodeIgnore ↔
      3 ≤ (pieces.headD []).length ∧
        (pieces.headD []).length - 3 ≤ (lines.headD []).length ∧
        decodeIgnore ((lines.headD []).drop ((pieces.headD []).length - 3)) =
          decodeIgnore (lines.headD []) := by
  rw [subscribeC2d_eq h.delivers]
  generalize hn : (pieces.headD []).length = n
  have hack : acknowledgement.length = 3 := rfl
  by_cases hshort : n < 3
  · constructor
    · intro heq
      have hlength := congrArg List.length heq
      rw [List.length_map, List.length_map, records_short whole hshort] at hlength
      omega
    · intro hlong
      omega
  · have hrest : (acknowledgement ++ delimit newline lines).drop n =
        (delimit newline lines).drop (n - 3) := by
      rw [List.drop_append, List.drop_eq_nil_of_le (by omega), List.nil_append, hack]
    rw [hrest]
    cases lines with
    | nil =>
      have hfirst := length_head_le h.delivers
      have hstream : (acknowledgement ++ delimit newline []).length = 3 := rfl
      obtain rfl : n = 3 := by omega
      exact iff_of_true rfl ⟨le_rfl, le_rfl, rfl⟩
    | cons l ls =>
      rw [records_long whole rfl, List.headD_cons]
      simp [show 3 ≤ n by omega]

theorem yields_after_ack :
    subscribeC2d [ascii "OK\n", ascii "A\n"] = [ascii "A"].map decodeIgnore := by
  have hreceives : Receives [ascii "OK\n", ascii "A\n"]
      (acknowledgement ++ delimit newline [ascii "A"]) :=
    ⟨⟨rfl, by decide⟩, by decide, by decide⟩
  exact (yields_iff (by decide) hreceives).mpr ⟨by decide, by decide, rfl⟩

/-- A message that comes together with the acknowledgement is lost. -/
theorem not_always_yields :
    ¬ ∀ (lines pieces : List (List UInt8)), (∀ l ∈ lines, newline ∉ l) →
      Receives pieces (acknowledgement ++ delimit newline lines) →
        subscribeC2d pieces = lines.map decodeIgnore := by
  intro h
  have hreceives : Receives [ascii "OK\nA\n"] (acknowledgement ++ delimit newline [ascii "A"]) :=
    ⟨⟨rfl, by decide⟩, by decide, by decide⟩
  have hlost := congrArg List.length (h [ascii "A"] [ascii "OK\nA\n"] (by decide) hreceives)
  cases hlost

end Evi7688.Python.SubscribeC2d
