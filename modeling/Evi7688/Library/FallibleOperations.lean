/- Evi7688/Library/FallibleOperations
   digest: Operations that may fail, and programs that make all of them or fewer. -/

import Mathlib.Tactic.Common

set_option autoImplicit false
set_option relaxedAutoImplicit false

namespace Evi7688.Library.FallibleOperations

universe u v w

/-- Operations on a state: what each does, when it succeeds, and which have succeeded so far. -/
structure Operations (S : Type u) (O : Type v) where
  perform : S → O → S
  ready : S → O → Prop
  done : S → List O
  done_ready : ∀ {s op}, ready s op → done (perform s op) = done s ++ [op]
  done_refused : ∀ {s op}, ¬ ready s op → done (perform s op) = done s

variable {S : Type u} {O : Type v} (M : Operations S O)

/-- One after the other, the operations succeed. -/
def Reaches : S → List O → Prop
  | _, [] => True
  | s, op :: ops => M.ready s op ∧ Reaches (M.perform s op) ops

/-- The program makes at most as many operations as there are, and fewer successful ones unless
all of them, in order, succeed. -/
structure Attempts (f : S → S) (ops : List O) : Prop where
  reached : ∀ s, Reaches M s ops → f s = ops.foldl M.perform s
  missed : ∀ s, ¬ Reaches M s ops →
    ∃ more, more.length < ops.length ∧ M.done (f s) = M.done s ++ more

variable {M}

theorem reaches_append (s : S) (a b : List O) :
    Reaches M s (a ++ b) ↔ Reaches M s a ∧ Reaches M (a.foldl M.perform s) b := by
  induction a generalizing s with
  | nil => simp [Reaches]
  | cons op a ih =>
    rw [List.cons_append, Reaches, Reaches, List.foldl_cons, ih, and_assoc]

theorem done_foldl {s : S} {ops : List O} (h : Reaches M s ops) :
    M.done (ops.foldl M.perform s) = M.done s ++ ops := by
  induction ops generalizing s with
  | nil => simp
  | cons op ops ih =>
    obtain ⟨hready, hrest⟩ := h
    rw [List.foldl_cons, ih hrest, M.done_ready hready, List.append_assoc]
    rfl

section Programs

variable {f g : S → S} {op : O} {a b ops : List O}

theorem Attempts.bounded (h : Attempts M f ops) (s : S) :
    ∃ more, more.length ≤ ops.length ∧ M.done (f s) = M.done s ++ more := by
  by_cases hs : Reaches M s ops
  · refine ⟨ops, Nat.le_refl _, ?_⟩
    rw [h.reached s hs, done_foldl hs]
  · obtain ⟨more, hmore, hdone⟩ := h.missed s hs
    exact ⟨more, Nat.le_of_lt hmore, hdone⟩

/-- Every operation has succeeded exactly when each one could, in its turn. -/
theorem Attempts.done_iff (h : Attempts M f ops) (s : S) :
    M.done (f s) = M.done s ++ ops ↔ Reaches M s ops := by
  constructor
  · intro hall
    by_contra hs
    obtain ⟨more, hmore, hdone⟩ := h.missed s hs
    rw [hdone] at hall
    obtain rfl := List.append_cancel_left hall
    exact absurd hmore (Nat.lt_irrefl _)
  · intro hs
    rw [h.reached s hs, done_foldl hs]

theorem attempts_nothing : Attempts M id ([] : List O) :=
  ⟨fun _ _ => rfl, fun _ h => absurd trivial h⟩

theorem Attempts.cons (hrest : Attempts M g ops)
    (after : ∀ s, M.ready s op → f s = g (M.perform s op))
    (refused : ∀ s, ¬ M.ready s op →
      ∃ more, more.length ≤ ops.length ∧ M.done (f s) = M.done s ++ more) :
    Attempts M f (op :: ops) := by
  constructor
  · rintro s ⟨hready, hops⟩
    rw [after s hready, hrest.reached _ hops, List.foldl_cons]
  · intro s hmiss
    by_cases hready : M.ready s op
    · obtain ⟨more, hmore, hdone⟩ := hrest.missed (M.perform s op) fun hops => hmiss ⟨hready, hops⟩
      refine ⟨op :: more, ?_, ?_⟩
      · rw [List.length_cons, List.length_cons]
        omega
      · rw [after s hready, hdone, M.done_ready hready, List.append_assoc]
        rfl
    · obtain ⟨more, hmore, hdone⟩ := refused s hready
      refine ⟨more, ?_, hdone⟩
      rw [List.length_cons]
      omega

theorem attempts_perform (op : O) : Attempts M (fun s => M.perform s op) [op] := by
  apply attempts_nothing.cons
  · intro s _
    rfl
  · intro s hrefused
    exact ⟨[], Nat.le_refl _, by rw [M.done_refused hrefused, List.append_nil]⟩

theorem Attempts.comp (hf : Attempts M f a) (hg : Attempts M g b) :
    Attempts M (fun s => g (f s)) (a ++ b) := by
  constructor
  · intro s h
    obtain ⟨ha, hb⟩ := (reaches_append s a b).mp h
    have hfirst := hf.reached s ha
    simp only [hfirst, hg.reached _ hb, List.foldl_append]
  · intro s h
    by_cases ha : Reaches M s a
    · have hfirst := hf.reached s ha
      obtain ⟨more, hmore, hdone⟩ := hg.missed (a.foldl M.perform s) fun hb =>
        h ((reaches_append s a b).mpr ⟨ha, hb⟩)
      refine ⟨a ++ more, ?_, ?_⟩
      · rw [List.length_append, List.length_append]
        omega
      · simp only [hfirst, hdone, done_foldl ha, List.append_assoc]
    · obtain ⟨first, hlt, hfirst⟩ := hf.missed s ha
      obtain ⟨more, hle, hdone⟩ := hg.bounded (f s)
      refine ⟨first ++ more, ?_, ?_⟩
      · rw [List.length_append, List.length_append]
        omega
      · rw [hdone, hfirst, List.append_assoc]

theorem attempts_foldl {B : Type w} {step : S → B → S} {opsOf : B → List O}
    (h : ∀ b, Attempts M (fun s => step s b) (opsOf b)) (bs : List B) :
    Attempts M (fun s => bs.foldl step s) (bs.flatMap opsOf) := by
  induction bs with
  | nil => exact attempts_nothing
  | cons b bs ih =>
    rw [List.flatMap_cons]
    exact (h b).comp ih

end Programs

end Evi7688.Library.FallibleOperations
