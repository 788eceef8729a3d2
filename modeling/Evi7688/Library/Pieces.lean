/- Evi7688/Library/Pieces
   digest: Streams handed over in pieces, and reads that ask for an exact number of items. -/

import Mathlib.Tactic.Common
import Mathlib.Data.List.Basic

set_option autoImplicit false
set_option relaxedAutoImplicit false

namespace Evi7688.Library.Pieces

universe u

variable {α : Type u}

/-- The pieces spell the stream, and no read in between comes back empty. -/
structure Delivers (pieces : List (List α)) (stream : List α) : Prop where
  whole : pieces.flatten = stream
  nonempty : ∀ p ∈ pieces, p ≠ []

/-- One read of at most `want` items. It stops at the end of the first piece; an empty piece, or
no piece at all, is a read that fails. -/
def recv (want : Nat) : List (List α) → Option (List α) × List (List α)
  | [] => (none, [])
  | [] :: rest => (none, rest)
  | (x :: xs) :: rest =>
    (some ((x :: xs).take want),
      if xs.length < want then rest else (x :: xs).drop want :: rest)

/-- Read until `want` items are in the buffer; a failing read ends the loop. Every successful
read brings at least one item, so `fuel = want` reads suffice. -/
def readLoop : Nat → Nat → List α → List (List α) → Option (List α) × List (List α)
  | 0, want, got, pieces => (if got.length < want then none else some got, pieces)
  | fuel + 1, want, got, pieces =>
    if got.length < want then
      match recv (want - got.length) pieces with
      | (none, rest) => (none, rest)
      | (some more, rest) => readLoop fuel want (got ++ more) rest
    else (some got, pieces)

def readExact (want : Nat) (pieces : List (List α)) : Option (List α) × List (List α) :=
  readLoop want want [] pieces

/-- Reads that each fill a buffer of `n` items as far as the stream goes. -/
def fillLoop (n : Nat) : Nat → List α → List (List α)
  | 0, _ => []
  | fuel + 1, xs => if xs = [] then [] else xs.take n :: fillLoop n fuel (xs.drop n)

def fill (n : Nat) (xs : List α) : List (List α) := fillLoop n xs.length xs

theorem delivers_fillLoop {n : Nat} (positive : 0 < n) (fuel : Nat) (xs : List α)
    (enough : xs.length ≤ fuel) : Delivers (fillLoop n fuel xs) xs := by
  induction fuel generalizing xs with
  | zero =>
    obtain rfl : xs = [] := List.length_eq_zero_iff.mp (by omega)
    exact ⟨rfl, by simp [fillLoop]⟩
  | succ fuel ih =>
    by_cases hxs : xs = []
    · subst hxs
      exact ⟨by simp [fillLoop], by simp [fillLoop]⟩
    · have hpos := List.length_pos_of_ne_nil hxs
      obtain ⟨hwhole, hne⟩ := ih (xs.drop n) (by rw [List.length_drop]; omega)
      rw [fillLoop, if_neg hxs]
      refine ⟨by rw [List.flatten_cons, hwhole, List.take_append_drop], ?_⟩
      intro p hp
      rcases List.mem_cons.mp hp with rfl | hp
      · rw [ne_eq, List.take_eq_nil_iff, not_or]
        exact ⟨by omega, hxs⟩
      · exact hne p hp

theorem delivers_fill {n : Nat} (positive : 0 < n) (xs : List α) : Delivers (fill n xs) xs :=
  delivers_fillLoop positive _ xs (Nat.le_refl _)

theorem length_le_of_mem_fillLoop {n fuel : Nat} {xs : List α} :
    ∀ p ∈ fillLoop n fuel xs, p.length ≤ n := by
  induction fuel generalizing xs with
  | zero => simp [fillLoop]
  | succ fuel ih =>
    intro p hp
    rw [fillLoop] at hp
    split_ifs at hp with hxs
    · cases hp
    · rcases List.mem_cons.mp hp with rfl | hp
      · exact List.length_take_le _ _
      · exact ih p hp

theorem fillLoop_eq_fill {n : Nat} (positive : 0 < n) (fuel : Nat) (xs : List α)
    (enough : xs.length ≤ fuel) : fillLoop n fuel xs = fill n xs := by
  have hsame : ∀ fuel fuel' (xs : List α), xs.length ≤ fuel → xs.length ≤ fuel' →
      fillLoop n fuel xs = fillLoop n fuel' xs := by
    intro fuel
    induction fuel with
    | zero =>
      intro fuel' xs h _
      obtain rfl : xs = [] := List.length_eq_zero_iff.mp (by omega)
      cases fuel' <;> simp [fillLoop]
    | succ fuel ih =>
      intro fuel' xs h h'
      cases fuel' with
      | zero =>
        obtain rfl : xs = [] := List.length_eq_zero_iff.mp (by omega)
        simp [fillLoop]
      | succ fuel' =>
        rw [fillLoop, fillLoop, ih fuel' (xs.drop n)]
        · rw [List.length_drop]
          omega
        · rw [List.length_drop]
          omega
  exact hsame fuel xs.length xs enough (Nat.le_refl _)

theorem fill_step {n : Nat} (positive : 0 < n) {xs : List α} (hne : xs ≠ []) :
    fill n xs = xs.take n :: fill n (xs.drop n) := by
  obtain ⟨fuel, hfuel⟩ : ∃ fuel, xs.length = fuel + 1 :=
    ⟨xs.length - 1, by have := List.length_pos_of_ne_nil hne; omega⟩
  rw [fill, hfuel, fillLoop, if_neg hne, fillLoop_eq_fill positive]
  rw [List.length_drop]
  omega

theorem fill_of_length_le {n : Nat} {xs : List α} (hne : xs ≠ []) (h : xs.length ≤ n) :
    fill n xs = [xs] := by
  obtain ⟨x, xs, rfl⟩ := List.exists_cons_of_ne_nil hne
  have hdrop : (x :: xs).drop n = [] := List.drop_eq_nil_of_le h
  have hnil : ∀ fuel, fillLoop n fuel ([] : List α) = [] := by
    intro fuel
    cases fuel <;> simp [fillLoop]
  rw [fill, List.length_cons, fillLoop, if_neg hne, hdrop, hnil, List.take_of_length_le h]

theorem fill_two {n : Nat} {xs : List α} (hlong : n < xs.length)
    (hshort : xs.length ≤ 2 * n) : fill n xs = [xs.take n, xs.drop n] := by
  have hne : xs ≠ [] := List.ne_nil_of_length_pos (by omega)
  have hrest : xs.drop n ≠ [] := by
    rw [ne_eq, List.drop_eq_nil_iff]
    omega
  have hdrop : (xs.drop n).drop n = [] := by
    rw [List.drop_drop, List.drop_eq_nil_iff]
    omega
  obtain ⟨fuel, hfuel⟩ : ∃ fuel, xs.length = fuel + 2 := ⟨xs.length - 2, by omega⟩
  have hnil : fillLoop n fuel ([] : List α) = [] := by
    cases fuel <;> simp [fillLoop]
  have htake : (xs.drop n).take n = xs.drop n := List.take_of_length_le (by
    rw [List.length_drop]
    omega)
  rw [fill, hfuel, fillLoop, if_neg hne, fillLoop, if_neg hrest, hdrop, hnil, htake]

theorem recv_cons (want : Nat) (positive : 0 < want) {p : List α} (hp : p ≠ [])
    (rest : List (List α)) :
    ∃ more rest', recv want (p :: rest) = (some more, rest') ∧ more ≠ [] ∧ more.length ≤ want ∧
      (p :: rest).flatten = more ++ rest'.flatten ∧
      ((∀ q ∈ rest, q ≠ []) → ∀ q ∈ rest', q ≠ []) := by
  obtain ⟨x, xs, rfl⟩ := List.exists_cons_of_ne_nil hp
  by_cases hlt : xs.length < want
  · have htake : (x :: xs).take want = x :: xs := List.take_of_length_le hlt
    refine ⟨x :: xs, rest, ?_, by simp, hlt, rfl, id⟩
    simp only [recv, if_pos hlt, htake]
  · refine ⟨(x :: xs).take want, (x :: xs).drop want :: rest, ?_, ?_, ?_, ?_, ?_⟩
    · simp only [recv, if_neg hlt]
    · simp only [ne_eq, List.take_eq_nil_iff, not_or]
      exact ⟨by omega, by simp⟩
    · simp only [List.length_take]
      omega
    · rw [List.flatten_cons, List.flatten_cons, ← List.append_assoc, List.take_append_drop]
    · intro hrest q hq
      rcases List.mem_cons.mp hq with rfl | hq
      · simp only [ne_eq, List.drop_eq_nil_iff, List.length_cons, Nat.not_le]
        omega
      · exact hrest q hq

theorem readLoop_spec (fuel want : Nat) (got : List α) (pieces : List (List α))
    (enough : want ≤ got.length + fuel) (hgot : got.length ≤ want)
    (nonempty : ∀ p ∈ pieces, p ≠ []) :
    (want ≤ got.length + pieces.flatten.length ∧
      ∃ more rest, readLoop fuel want got pieces = (some (got ++ more), rest) ∧
        pieces.flatten = more ++ rest.flatten ∧ (got ++ more).length = want ∧
        ∀ p ∈ rest, p ≠ []) ∨
    (got.length + pieces.flatten.length < want ∧
      (readLoop fuel want got pieces).1 = none) := by
  induction fuel generalizing got pieces with
  | zero =>
    refine Or.inl ⟨by omega, [], pieces, ?_, rfl, by simp; omega, nonempty⟩
    simp [readLoop, show ¬ got.length < want by omega]
  | succ fuel ih =>
    by_cases hlt : got.length < want
    · cases pieces with
      | nil =>
        refine Or.inr ⟨by simpa using hlt, ?_⟩
        simp [readLoop, hlt, recv]
      | cons p pieces =>
        obtain ⟨more, rest, hrecv, hne, hle, hflat, hrest⟩ :=
          recv_cons (want - got.length) (by omega) (nonempty p List.mem_cons_self) pieces
        have hpos : 0 < more.length := List.length_pos_of_ne_nil hne
        have hstep : readLoop (fuel + 1) want got (p :: pieces) =
            readLoop fuel want (got ++ more) rest := by
          simp only [readLoop, if_pos hlt, hrecv]
        rw [hstep, hflat]
        have next := ih (got ++ more) rest (by simp; omega) (by simp; omega)
          (hrest fun q hq => nonempty q (List.mem_cons_of_mem _ hq))
        simp only [List.length_append] at next ⊢
        rcases next with ⟨hlen, more', rest', hloop, hflat', hfull, hrest'⟩ | ⟨hlen, hloop⟩
        · refine Or.inl ⟨by omega, more ++ more', rest', ?_, ?_, ?_, hrest'⟩
          · rw [hloop, List.append_assoc]
          · rw [hflat', List.append_assoc]
          · rw [List.length_append]
            omega
        · exact Or.inr ⟨by omega, hloop⟩
    · refine Or.inl ⟨by omega, [], pieces, ?_, rfl, by simp; omega, nonempty⟩
      simp [readLoop, hlt]

/-- An exact read of a delivered stream takes the first `want` items and leaves a delivery of
the others. -/
theorem readExact_eq {pieces : List (List α)} {stream : List α} (h : Delivers pieces stream)
    {want : Nat} (enough : want ≤ stream.length) :
    ∃ rest, readExact want pieces = (some (stream.take want), rest) ∧
      Delivers rest (stream.drop want) := by
  obtain ⟨rfl, nonempty⟩ := h
  rcases readLoop_spec want want [] pieces (by simp) (by simp) nonempty with
    ⟨_, more, rest, hloop, hflat, hfull, hrest⟩ | ⟨hshort, _⟩
  · rw [List.nil_append] at hloop hfull
    refine ⟨rest, ?_, ?_, hrest⟩
    · rw [readExact, hloop, hflat, List.take_left' hfull]
    · rw [hflat, List.drop_left' hfull]
  · simp only [List.length_nil] at hshort
    omega

theorem readExact_eq_none {pieces : List (List α)} {stream : List α} (h : Delivers pieces stream)
    {want : Nat} (short : stream.length < want) : (readExact want pieces).1 = none := by
  obtain ⟨rfl, nonempty⟩ := h
  rcases readLoop_spec want want [] pieces (by simp) (by simp) nonempty with
    ⟨henough, _⟩ | ⟨_, hnone⟩
  · simp only [List.length_nil] at henough
    omega
  · exact hnone

theorem recv_some {want : Nat} {pieces rest : List (List α)} {more : List α}
    (h : recv want pieces = (some more, rest)) :
    pieces.flatten = more ++ rest.flatten ∧ more.length ≤ want := by
  match pieces with
  | [] => simp [recv] at h
  | [] :: pieces => simp [recv] at h
  | (x :: xs) :: pieces =>
    simp only [recv, Prod.mk.injEq, Option.some.injEq] at h
    obtain ⟨rfl, rfl⟩ := h
    refine ⟨?_, List.length_take_le _ _⟩
    split_ifs with hlt
    · rw [List.take_of_length_le (Nat.succ_le_of_lt hlt), List.flatten_cons]
    · rw [List.flatten_cons, List.flatten_cons, ← List.append_assoc, List.take_append_drop]

/-- However the pieces fall and wherever reads fail: what a loop returns was next in the stream. -/
theorem readLoop_some {fuel want : Nat} {got items : List α} {pieces rest : List (List α)}
    (hgot : got.length ≤ want) (h : readLoop fuel want got pieces = (some items, rest)) :
    got ++ pieces.flatten = items ++ rest.flatten ∧ items.length = want := by
  induction fuel generalizing got pieces with
  | zero =>
    simp only [readLoop, Prod.mk.injEq] at h
    split_ifs at h with hlt
    · simp at h
    · obtain ⟨heq, rfl⟩ := h
      obtain rfl := Option.some.inj heq
      exact ⟨rfl, by omega⟩
  | succ fuel ih =>
    simp only [readLoop] at h
    split_ifs at h with hlt
    · match hrecv : recv (want - got.length) pieces with
      | (none, left) => simp [hrecv] at h
      | (some more, left) =>
        obtain ⟨hflat, hle⟩ := recv_some hrecv
        simp only [hrecv] at h
        have hnext := ih (by rw [List.length_append]; omega) h
        rw [hflat, ← List.append_assoc]
        exact hnext
    · simp only [Prod.mk.injEq, Option.some.injEq] at h
      obtain ⟨rfl, rfl⟩ := h
      exact ⟨rfl, by omega⟩

theorem readExact_some {want : Nat} {items : List α} {pieces rest : List (List α)}
    (h : readExact want pieces = (some items, rest)) :
    pieces.flatten = items ++ rest.flatten ∧ items.length = want :=
  readLoop_some (Nat.zero_le want) h

end Evi7688.Library.Pieces
