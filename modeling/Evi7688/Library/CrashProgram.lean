/- Evi7688/Library/CrashProgram
   digest: Programs of external commands that may fail, cut short by a loss of power after any of them. -/

import Mathlib.Tactic.Common

set_option autoImplicit false
set_option relaxedAutoImplicit false

namespace Evi7688.Library.CrashProgram

universe u v

/-- A program runs commands, branches on their success and returns a code. -/
inductive Program (C : Type u)
  | ret (rc : Int)
  | command (c : C) (next : Bool → Program C)

variable {C : Type u} {S : Type v}

def ignoring (cs : List C) (k : Program C) : Program C :=
  cs.foldr (fun c k => .command c fun _ => k) k

theorem ignoring_nil (k : Program C) : ignoring [] k = k := rfl

theorem ignoring_cons (c : C) (cs : List C) (k : Program C) :
    ignoring (c :: cs) k = .command c fun _ => ignoring cs k := rfl

/-- A run, given what each command does to the state and after which commands the power is lost.
There is no return code when it is. -/
def exec (act : C → S → Bool × S) (lost : C → Bool) : Program C → S → Option Int × S
  | .ret rc, s => (some rc, s)
  | .command c next, s =>
    if lost c then (none, (act c s).2) else exec act lost (next (act c s).1) (act c s).2

/-- A run that returns ends in `post`, and one cut short in `crash`. -/
def Ends (post : Int → S → Prop) (crash : S → Prop) (r : Option Int × S) : Prop :=
  match r.1 with
  | some rc => post rc r.2
  | none => crash r.2

/-- What holds at every end of a run holds of the state it leaves. -/
theorem Ends.state {P : S → Prop} {r : Option Int × S} (h : Ends (fun _ => P) P r) : P r.2 := by
  unfold Ends at h
  cases hrc : r.1 with
  | none => simpa [hrc] using h
  | some rc => simpa [hrc] using h

theorem Ends.returns {post : Int → S → Prop} {r : Option Int × S}
    (h : Ends post (fun _ => False) r) : ∃ rc, r.1 = some rc ∧ post rc r.2 := by
  unfold Ends at h
  cases hrc : r.1 with
  | none => simp [hrc] at h
  | some rc => exact ⟨rc, rfl, by simpa [hrc] using h⟩

section Rules

variable {act : C → S → Bool × S} {lost : C → Bool} {post : Int → S → Prop} {crash : S → Prop}

theorem ends_ret_iff (rc : Int) (s : S) :
    Ends post crash (exec act lost (.ret rc) s) ↔ post rc s :=
  Iff.rfl

theorem ends_command_iff (c : C) (next : Bool → Program C) (s : S) :
    Ends post crash (exec act lost (.command c next) s) ↔
      if lost c then crash (act c s).2
      else Ends post crash (exec act lost (next (act c s).1) (act c s).2) := by
  cases hlost : lost c <;> simp [exec, hlost, Ends]

theorem ends_ignoring_iff (cs : List C) (k : Program C) (s : S)
    (idle : ∀ c ∈ cs, (act c s).2 = s) :
    Ends post crash (exec act lost (ignoring cs k) s) ↔
      if ∃ c ∈ cs, lost c = true then crash s else Ends post crash (exec act lost k s) := by
  induction cs with
  | nil => simp [ignoring]
  | cons c cs ih =>
    rw [ignoring_cons, ends_command_iff, idle c List.mem_cons_self,
      ih fun x hx => idle x (List.mem_cons_of_mem _ hx)]
    cases hlost : lost c <;> simp [hlost]

theorem ends_checked_iff (c : C) (rc : Int) (k : Program C) (s : S)
    (hpost : ∀ s, post rc s ↔ crash s) :
    Ends post crash (exec act lost (.command c fun ok => if !ok then .ret rc else k) s) ↔
      if lost c = false ∧ (act c s).1 = true then Ends post crash (exec act lost k (act c s).2)
      else crash (act c s).2 := by
  rw [ends_command_iff]
  cases hlost : lost c
  · cases hok : (act c s).1
    · simp [ends_ret_iff, hpost]
    · simp
  · simp

end Rules

end Evi7688.Library.CrashProgram
