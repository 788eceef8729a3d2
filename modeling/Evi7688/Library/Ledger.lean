/- Evi7688/Library/Ledger
   digest: Programs that obtain, use and give back resources; a misuse leaves them without a result. -/

import Mathlib.Data.Finset.Basic
import Mathlib.Tactic.Common

set_option autoImplicit false
set_option relaxedAutoImplicit false

namespace Evi7688.Library.Ledger

variable {R : Type} [DecidableEq R]

/-- A program on the set of resources held. It has no result once a resource is obtained that is
held already, or one is used or given back that is not. -/
abbrev Guarded (R : Type) [DecidableEq R] := StateT (Finset R) Option

def acquire (r : R) : Guarded R Unit := fun held =>
  if r ∈ held then none else some ((), insert r held)

def use (r : R) : Guarded R Unit := fun held => if r ∈ held then some ((), held) else none

def release (r : R) : Guarded R Unit := fun held =>
  if r ∈ held then some ((), held.erase r) else none

/-- A request that the system may refuse. -/
def request (given : Bool) (r : R) : Guarded R Unit := if given then acquire r else pure ()

/-- Giving back what a request brought, if it brought anything. -/
def settle (given : Bool) (r : R) : Guarded R Unit := if given then release r else pure ()

section Run

variable {held : Finset R} {r : R}

theorem run_acquire (fresh : r ∉ held) : (acquire r).run held = some ((), insert r held) :=
  if_neg fresh

theorem run_use (there : r ∈ held) : (use r).run held = some ((), held) := if_pos there

theorem run_release (there : r ∈ held) : (release r).run held = some ((), held.erase r) :=
  if_pos there

end Run

end Evi7688.Library.Ledger
