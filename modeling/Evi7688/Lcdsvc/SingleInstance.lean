/- Evi7688/Lcdsvc/SingleInstance
   digest: Daemons started, killed and restarted at any moment, their lock file and the path of their socket. -/

import Mathlib.Logic.Function.Basic
import Mathlib.Data.List.Induction
import Mathlib.Tactic.Common

set_option autoImplicit false
set_option relaxedAutoImplicit false

namespace Evi7688.Lcdsvc.SingleInstance

/-- How far a process is in `main`: the calls behind it, up to the accept loop. -/
inductive Stage
  | absent | opened | locked | unlinked | created | bound | listening | serving
  deriving DecidableEq

/-- `flock` is behind the process. -/
def Stage.PastLock : Stage → Prop
  | .absent | .opened => False
  | _ => True

/-- `unlink` is behind the process, and `bind` is not. -/
def Stage.Unbound : Stage → Prop
  | .unlinked | .created => True
  | _ => False

/-- `bind` is behind the process. -/
def Stage.Bound : Stage → Prop
  | .bound | .listening | .serving => True
  | _ => False

/-- Whether a process in this stage answers clients, at once or as soon as it accepts. -/
def Stage.Listens : Stage → Prop
  | .listening | .serving => True
  | _ => False

variable {P : Type} [DecidableEq P]

/-- The processes, whose lock the kernel has on the lock file, which process made the socket file,
and who has driven the lines of the panel. -/
structure State (P : Type) where
  stage : P → Stage
  lock : Option P
  path : Option P
  driven : List P

def State.initial (path : Option P) : State P := ⟨fun _ => .absent, none, path, []⟩

/-- A process makes its next call, which may fail where the state does not decide it, or it dies. -/
inductive Action (P : Type)
  | advance (p : P) (ok : Bool)
  | die (p : P)

namespace State

variable (s : State P)

def enter (p : P) (stage : Stage) : State P := { s with stage := Function.update s.stage p stage }

/-- The end of a process, and of a `popen` child that has the lock file open after it: the kernel
drops the lock, and the socket file stays. -/
def exit (p : P) : State P :=
  { s with
    stage := Function.update s.stage p .absent
    lock := if s.lock = some p then none else s.lock }

def advance (p : P) (ok : Bool) : State P :=
  match s.stage p with
  | .absent => if ok then s.enter p .opened else s
  | .opened =>
    -- `LOCK_NB`: who finds the file locked returns 1
    if ok ∧ s.lock = none then { s.enter p .locked with lock := some p } else s.exit p
  | .locked => { s.enter p .unlinked with path := none }
  | .unlinked => if ok then s.enter p .created else s.exit p
  | .created =>
    -- `bind` fails on a path that exists
    if ok ∧ s.path = none then { s.enter p .bound with path := some p } else s.exit p
  | .bound => if ok then s.enter p .listening else s.exit p
  | .listening => { s.enter p .serving with driven := s.driven ++ [p] }
  | .serving => { s with driven := s.driven ++ [p] }

def step : Action P → State P
  | .advance p ok => s.advance p ok
  | .die p => s.exit p

end State

def run (s : State P) (actions : List (Action P)) : State P := actions.foldl State.step s

/-- The process at the other end of a client's `connect`. -/
def reached (s : State P) : Option P := s.path

/-- The lock has one holder, who alone is past `flock`, and the path belongs to the holder from its
`unlink` on. -/
structure Sole (s : State P) : Prop where
  holder : ∀ p, (s.stage p).PastLock ↔ s.lock = some p
  clear : ∀ p, (s.stage p).Unbound → s.path = none
  own : ∀ p, (s.stage p).Bound → s.path = some p

theorem Stage.Bound.pastLock {st : Stage} (h : st.Bound) : st.PastLock := by
  cases st <;> trivial

theorem Stage.Unbound.pastLock {st : Stage} (h : st.Unbound) : st.PastLock := by
  cases st <;> trivial

section Steps

omit [DecidableEq P] in
theorem sole_initial (path : Option P) : Sole (State.initial path) where
  holder _ := ⟨fun h => h.elim, fun h => by cases h⟩
  clear _ h := h.elim
  own _ h := h.elim

omit [DecidableEq P] in
theorem Sole.unique {s : State P} (h : Sole s) {p q : P} (hp : (s.stage p).PastLock)
    (hq : (s.stage q).PastLock) : p = q :=
  Option.some.inj (((h.holder p).mp hp).symm.trans ((h.holder q).mp hq))

theorem Sole.replace {s s' : State P} {p : P} (h : Sole s)
    (others : ∀ q, q ≠ p → s'.stage q = s.stage q)
    (lock : (s'.stage p).PastLock ↔ s'.lock = some p)
    (lockOthers : ∀ q, q ≠ p → (s'.lock = some q ↔ s.lock = some q))
    (path : s'.path = s.path ∨ ∀ q, q ≠ p → ¬ (s.stage q).PastLock)
    (clear : (s'.stage p).Unbound → s'.path = none)
    (own : (s'.stage p).Bound → s'.path = some p) : Sole s' := by
  have keeps : ∀ q, q ≠ p → (s.stage q).PastLock → s'.path = s.path := by
    intro q hq hpast
    rcases path with hsame | hnobody
    · exact hsame
    · exact absurd hpast (hnobody q hq)
  refine ⟨?_, ?_, ?_⟩
  · intro q
    by_cases hq : q = p
    · subst hq
      exact lock
    · rw [others q hq, h.holder q, lockOthers q hq]
  · intro q hstage
    by_cases hq : q = p
    · subst hq
      exact clear hstage
    · rw [others q hq] at hstage
      rw [keeps q hq hstage.pastLock]
      exact h.clear q hstage
  · intro q hstage
    by_cases hq : q = p
    · subst hq
      exact own hstage
    · rw [others q hq] at hstage
      rw [keeps q hq hstage.pastLock]
      exact h.own q hstage

variable {s : State P} {p : P}

theorem Sole.exit (h : Sole s) (p : P) : Sole (s.exit p) := by
  have gone : (s.exit p).stage p = .absent := Function.update_self ..
  refine h.replace (p := p) (fun q hq => Function.update_of_ne hq ..) ?_ ?_ (.inl rfl) ?_ ?_
  · rw [gone]
    refine ⟨fun h => h.elim, fun hlock => ?_⟩
    simp only [State.exit] at hlock
    split_ifs at hlock with hmine
    exact absurd hlock hmine
  · intro q hq
    simp only [State.exit]
    split_ifs with hmine
    · rw [hmine]
      simp [Ne.symm hq]
    · rfl
  · rw [gone]
    exact fun h => h.elim
  · rw [gone]
    exact fun h => h.elim

theorem Sole.moved (h : Sole s) {stage : Stage} {path : Option P} {driven : List P}
    (hold : (s.stage p).PastLock) (hnew : stage.PastLock) (hclear : stage.Unbound → path = none)
    (hown : stage.Bound → path = some p) :
    Sole (State.mk (Function.update s.stage p stage) s.lock path driven) := by
  have here : Function.update s.stage p stage p = stage := Function.update_self ..
  refine h.replace (p := p) (fun q hq => Function.update_of_ne hq ..) ?_ (fun q _ => Iff.rfl)
    ?_ ?_ ?_
  · refine ⟨fun _ => (h.holder p).mp hold, fun _ => ?_⟩
    change (Function.update s.stage p stage p).PastLock
    rwa [here]
  · exact .inr fun q hq hpast => hq (h.unique hpast hold)
  · exact fun hstage => hclear (here ▸ hstage)
  · exact fun hstage => hown (here ▸ hstage)

theorem Sole.opened (h : Sole s) (hstage : s.stage p = .absent) : Sole (s.enter p .opened) := by
  have here : (s.enter p .opened).stage p = .opened := Function.update_self ..
  have hbefore := h.holder p
  rw [hstage] at hbefore
  refine h.replace (p := p) (fun q hq => Function.update_of_ne hq ..) ?_ (fun q _ => Iff.rfl)
    (.inl rfl) ?_ ?_
  · rw [here]
    exact hbefore
  · rw [here]
    exact fun h => h.elim
  · rw [here]
    exact fun h => h.elim

theorem Sole.locked (h : Sole s) (hfree : s.lock = none) :
    Sole { s.enter p .locked with lock := some p } := by
  have here : Function.update s.stage p .locked p = .locked := Function.update_self ..
  refine h.replace (p := p) (fun q hq => Function.update_of_ne hq ..) ?_ ?_ (.inl rfl) ?_ ?_
  · refine ⟨fun _ => rfl, fun _ => ?_⟩
    change (Function.update s.stage p .locked p).PastLock
    rw [here]
    trivial
  · intro q hq
    simp [hfree, Ne.symm hq]
  · intro hstage
    exact (here ▸ hstage : Stage.Unbound .locked).elim
  · intro hstage
    exact (here ▸ hstage : Stage.Bound .locked).elim

omit [DecidableEq P] in
theorem Sole.driven (h : Sole s) (driven : List P) : Sole { s with driven } :=
  ⟨h.holder, h.clear, h.own⟩

theorem Sole.advance (h : Sole s) (p : P) (ok : Bool) : Sole (s.advance p ok) := by
  rw [State.advance]
  have past : ∀ {st : Stage}, s.stage p = st → st.PastLock → (s.stage p).PastLock :=
    fun heq hst => heq ▸ hst
  cases hstage : s.stage p with
  | absent =>
    simp only
    split_ifs
    · exact h.opened hstage
    · exact h
  | opened =>
    simp only
    split_ifs with hfree
    · exact h.locked hfree.2
    · exact h.exit p
  | locked =>
    exact h.moved (past hstage trivial) trivial (fun _ => rfl) fun h => h.elim
  | unlinked =>
    simp only
    split_ifs
    · have hpath := h.clear p (by rw [hstage]; trivial)
      exact h.moved (past hstage trivial) trivial (fun _ => hpath) fun h => h.elim
    · exact h.exit p
  | created =>
    simp only
    split_ifs
    · exact h.moved (past hstage trivial) trivial (fun h => h.elim) fun _ => rfl
    · exact h.exit p
  | bound =>
    simp only
    split_ifs
    · have hpath := h.own p (by rw [hstage]; trivial)
      exact h.moved (past hstage trivial) trivial (fun h => h.elim) fun _ => hpath
    · exact h.exit p
  | listening =>
    have hpath := h.own p (by rw [hstage]; trivial)
    exact h.moved (past hstage trivial) trivial (fun h => h.elim) fun _ => hpath
  | serving => exact h.driven _

theorem Sole.step (h : Sole s) (a : Action P) : Sole (s.step a) := by
  cases a with
  | advance p ok => exact h.advance p ok
  | die p => exact h.exit p

theorem Sole.run (h : Sole s) (actions : List (Action P)) : Sole (run s actions) := by
  induction actions generalizing s with
  | nil => exact h
  | cons a actions ih => exact ih (h.step a)

end Steps

/-- What a client of the panel may rely on, whatever is started, fails or is killed: at most one
daemon listens or drives the lines, the path leads to it, its `bind` never finds the path taken, and
once it is gone the next one gets through, past the socket file it left. -/
structure Reliable (s : State P) : Prop where
  one : ∀ p q, (s.stage p).PastLock → (s.stage q).PastLock → p = q
  reached : ∀ p, (s.stage p).Listens → reached s = some p
  drives : ∀ p ok q, (s.advance p ok).driven = s.driven ++ [q] →
    q = p ∧ ∀ r, (s.stage r).Listens → r = q
  binds : ∀ p, s.stage p = .created → (s.advance p true).stage p = .bound
  restarts : ∀ p, s.lock = none → s.stage p = .absent →
    let s' := run s (List.replicate 7 (.advance p true))
    s'.stage p = .serving ∧ SingleInstance.reached s' = some p

section Guarantees

variable {s : State P}

theorem Stage.Listens.bound {st : Stage} (h : st.Listens) : st.Bound := by
  cases st <;> trivial

theorem listens_of_driven {p q : P} {ok : Bool} (h : (s.advance p ok).driven = s.driven ++ [q]) :
    q = p ∧ (s.stage p).Listens := by
  have idle : s.driven ≠ s.driven ++ [q] := by simp
  rw [State.advance] at h
  cases hstage : s.stage p with
  | listening | serving =>
    simp only [hstage, List.append_cancel_left_eq, List.cons.injEq, and_true] at h
    exact ⟨h.symm, trivial⟩
  | _ =>
    simp only [hstage] at h
    first
      | exact absurd h idle
      | (split_ifs at h <;> exact absurd h idle)

theorem Sole.binds (h : Sole s) {p : P} (hstage : s.stage p = .created) :
    (s.advance p true).stage p = .bound := by
  have hpath := h.clear p (by rw [hstage]; trivial)
  simp [State.advance, hstage, hpath, State.enter]

theorem restarts {p : P} (hfree : s.lock = none) (hstage : s.stage p = .absent) :
    (run s (List.replicate 7 (.advance p true))).stage p = .serving ∧
      reached (run s (List.replicate 7 (.advance p true))) = some p := by
  simp [run, List.replicate, State.step, State.advance, State.enter, hstage, hfree, reached]

/-- In every state that any number of daemons reach, started, failing and killed in any order, over
whatever socket file there was. -/
theorem reliable_run (path : Option P) (actions : List (Action P)) :
    Reliable (run (State.initial path) actions) := by
  have h := (sole_initial path).run actions
  refine ⟨fun p q => h.unique, ?_, ?_, fun p => h.binds, fun p => restarts⟩
  · intro p hp
    exact h.own p hp.bound
  · intro p ok q hdriven
    obtain ⟨rfl, hlistens⟩ := listens_of_driven hdriven
    exact ⟨rfl, fun r hr => h.unique hr.bound.pastLock hlistens.bound.pastLock⟩

end Guarantees

end Evi7688.Lcdsvc.SingleInstance
