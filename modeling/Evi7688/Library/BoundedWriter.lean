/- Evi7688/Library/BoundedWriter
   digest: A buffer of fixed capacity that is filled from its start, one item after the other. -/

import Mathlib.Tactic.Common

set_option autoImplicit false
set_option relaxedAutoImplicit false

namespace Evi7688.Library.BoundedWriter

universe u

variable {α : Type u} {cap : Nat}

/-- What has been written so far to a buffer of `cap` items. -/
structure BufferWriter (α : Type u) (cap : Nat) where
  written : List α
  fits : written.length ≤ cap

@[ext] theorem BufferWriter.ext {v w : BufferWriter α cap} (h : v.written = w.written) : v = w := by
  cases v
  cases w
  simpa using h

def BufferWriter.fresh : BufferWriter α cap := ⟨[], Nat.zero_le cap⟩

/-- One item more, unless the buffer is full. -/
def BufferWriter.put (w : BufferWriter α cap) (x : α) : Option (BufferWriter α cap) :=
  if h : w.written.length < cap then
    some ⟨w.written ++ [x], by rw [List.length_append]; exact h⟩
  else none

def BufferWriter.puts : BufferWriter α cap → List α → Option (BufferWriter α cap)
  | w, [] => some w
  | w, x :: xs => (w.put x).bind fun w => w.puts xs

/-- An item that was written is replaced. -/
def BufferWriter.overwrite (w : BufferWriter α cap) (i : Nat) (x : α) : Option (BufferWriter α cap) :=
  if i < w.written.length then
    some ⟨w.written.set i x, by rw [List.length_set]; exact w.fits⟩
  else none

theorem BufferWriter.puts_singleton (w : BufferWriter α cap) (x : α) : w.puts [x] = w.put x := by
  simp [puts]

theorem BufferWriter.puts_append (w : BufferWriter α cap) (xs ys : List α) :
    w.puts (xs ++ ys) = (w.puts xs).bind fun w => w.puts ys := by
  induction xs generalizing w with
  | nil => rfl
  | cons x xs ih =>
    rw [List.cons_append, puts, puts, Option.bind_assoc]
    congr 1
    funext v
    exact ih v

theorem BufferWriter.puts_eq_some_iff (w v : BufferWriter α cap) (xs : List α) :
    w.puts xs = some v ↔ w.written.length + xs.length ≤ cap ∧ v.written = w.written ++ xs := by
  induction xs generalizing w with
  | nil =>
    have hfits := w.fits
    simp only [puts, Option.some.injEq, List.length_nil, List.append_nil]
    constructor
    · rintro rfl
      exact ⟨hfits, rfl⟩
    · rintro ⟨-, hsame⟩
      exact BufferWriter.ext hsame.symm
  | cons x xs ih =>
    rw [puts, put, List.length_cons]
    split_ifs with hroom
    · rw [Option.bind_some, ih, List.length_append, List.length_singleton, List.append_assoc,
        List.singleton_append]
      constructor
      · rintro ⟨hle, hv⟩
        exact ⟨by omega, hv⟩
      · rintro ⟨hle, hv⟩
        exact ⟨by omega, hv⟩
    · simp only [Option.bind_none, reduceCtorEq, false_iff]
      rintro ⟨hle, -⟩
      omega

theorem BufferWriter.fresh_puts {xs : List α} (h : xs.length ≤ cap) :
    (BufferWriter.fresh : BufferWriter α cap).puts xs = some ⟨xs, h⟩ := by
  rw [puts_eq_some_iff, fresh]
  exact ⟨by simpa using h, rfl⟩

end Evi7688.Library.BoundedWriter
