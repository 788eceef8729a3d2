/- Evi7688/Python2c/TickLoop
   digest: The epoll loop of evi-python2c under timer expirations and signals at any point. -/

import Mathlib.Algebra.GroupWithZero.Nat
import Mathlib.Data.List.Induction
import Mathlib.Tactic.Common

set_option autoImplicit false
set_option relaxedAutoImplicit false

namespace Evi7688.Python2c.TickLoop

/-- Where the program is: at the test of `running`, before the call of `epoll_wait`, inside it, back
with the event of the timer, with a count it has read, behind the loop, or ended. -/
inductive Pc
  | test | call | wait | ready
  | got (x : Nat)
  | leave | ended
  deriving DecidableEq

/-- `pending` is the counter of the timer, `lines` the counts printed behind `[tick]`. The other
lines, `bye` and those of `perror`, are left out. -/
structure State where
  running : Bool
  pc : Pc
  pending : Nat
  lines : List Nat

/-- The period of the timer elapses, a signal is handled, the program goes on, or `epoll_wait`
fails for another reason than a signal. -/
inductive Input
  | expire | signal | run | fail
  deriving DecidableEq

def start : State := ⟨true, .test, 0, []⟩

/-- The next step of the program. `epoll_wait` sleeps while the counter is zero. -/
def go (s : State) : State :=
  match s.pc with
  | .test => { s with pc := if s.running then .call else .leave }
  | .call => { s with pc := .wait }
  | .wait => if s.pending = 0 then s else { s with pc := .ready }
  | .ready =>
    if s.pending = 0 then { s with pc := .test } else { s with pc := .got s.pending, pending := 0 }
  | .got x => { s with pc := .test, lines := s.lines ++ [x] }
  | .leave => { s with pc := .ended }
  | .ended => s

/-- `on_sig`; a call of `epoll_wait` that sleeps returns with `EINTR`. -/
def onSig (s : State) : State :=
  { s with running := false, pc := if s.pc = .wait then .test else s.pc }

def State.apply (s : State) : Input → State
  | .expire => { s with pending := s.pending + 1 }
  | .signal => onSig s
  | .run => go s
  | .fail => if s.pc = .wait then { s with pc := .leave } else s

def after (inputs : List Input) : State := inputs.foldl State.apply start

def inHand : Pc → Nat
  | .got x => x
  | _ => 0

section Ticks

/-- Every expiration so far was printed, is in hand or is still in the counter. -/
structure Accounted (s : State) (expired : Nat) : Prop where
  total : s.lines.sum + inHand s.pc + s.pending = expired
  printed : ∀ x ∈ s.lines, 0 < x
  hand : ∀ x, s.pc = .got x → 0 < x

theorem accounted_start : Accounted start 0 := by
  constructor
  · rfl
  · exact fun x hx => absurd hx List.not_mem_nil
  · rintro x ⟨⟩

variable {s : State} {expired : Nat}

theorem Accounted.move (h : Accounted s expired) (running : Bool) (pc : Pc)
    (before : inHand s.pc = 0) (empty : ∀ x, pc ≠ .got x) :
    Accounted { s with running := running, pc := pc } expired := by
  have hafter : inHand pc = 0 := by
    cases pc with
    | got x => exact absurd rfl (empty x)
    | _ => rfl
  refine ⟨?_, h.printed, fun x hx => absurd hx (empty x)⟩
  rw [← h.total, before, ← hafter]

theorem Accounted.go (h : Accounted s expired) : Accounted (go s) expired := by
  cases hpc : s.pc with
  | test =>
    have hempty : ∀ x, (if s.running then Pc.call else .leave) ≠ .got x := by
      intro x
      split_ifs <;> exact nofun
    simpa [TickLoop.go, hpc] using h.move s.running _ (by rw [hpc]; rfl) hempty
  | call => simpa [TickLoop.go, hpc] using h.move s.running .wait (by rw [hpc]; rfl) nofun
  | wait =>
    by_cases hzero : s.pending = 0
    · simpa [TickLoop.go, hpc, hzero] using h
    · simpa [TickLoop.go, hpc, hzero] using h.move s.running .ready (by rw [hpc]; rfl) nofun
  | ready =>
    by_cases hzero : s.pending = 0
    · simpa [TickLoop.go, hpc, hzero] using h.move s.running .test (by rw [hpc]; rfl) nofun
    · have htotal := h.total
      rw [hpc] at htotal
      simp only [TickLoop.go, hpc, hzero, if_false]
      refine ⟨?_, h.printed, fun x hx => ?_⟩
      · simpa [inHand] using htotal
      · obtain rfl := Pc.got.inj hx
        exact Nat.pos_of_ne_zero hzero
  | got x =>
    have htotal := h.total
    rw [hpc] at htotal
    simp only [TickLoop.go, hpc]
    refine ⟨by simpa [inHand] using htotal, ?_, nofun⟩
    intro y hy
    rcases List.mem_append.mp hy with hold | hnew
    · exact h.printed y hold
    · rw [List.mem_singleton.mp hnew]
      exact h.hand x hpc
  | leave => simpa [TickLoop.go, hpc] using h.move s.running .ended (by rw [hpc]; rfl) nofun
  | ended => simpa [TickLoop.go, hpc] using h

theorem Accounted.onSig (h : Accounted s expired) : Accounted (onSig s) expired := by
  unfold TickLoop.onSig
  split_ifs with hwait
  · exact h.move false .test (by rw [hwait]; rfl) nofun
  · exact ⟨h.total, h.printed, h.hand⟩

theorem Accounted.apply (h : Accounted s expired) (input : Input) :
    Accounted (s.apply input) (expired + [input].count .expire) := by
  cases input with
  | expire =>
    refine ⟨?_, h.printed, h.hand⟩
    rw [← h.total]
    exact (Nat.add_assoc _ _ _).symm
  | signal => exact h.onSig
  | run => exact h.go
  | fail =>
    simp only [State.apply]
    split_ifs with hwait
    · exact h.move s.running .leave (by rw [hwait]; rfl) nofun
    · exact h

/-- Whatever the order of expirations, signals and steps, the printed counts, a count in hand and
the counter of the timer add up to the expirations, and no line counts none. -/
theorem ticks_accounted (inputs : List Input) :
    Accounted (after inputs) (inputs.count .expire) := by
  induction inputs using List.reverseRecOn with
  | nil => exact accounted_start
  | append_singleton inputs input ih =>
    rw [after, List.foldl_append, List.count_append]
    exact ih.apply input

end Ticks

section Shutdown

/-- Steps the program still takes once `running` is cleared. -/
def left : Pc → Nat
  | .call => 6
  | .wait => 5
  | .ready => 4
  | .got _ => 3
  | .test => 2
  | .leave => 1
  | .ended => 0

/-- The program will not sleep again: no call of `epoll_wait` is ahead of it, or the timer has
expired for it. -/
structure Stopping (s : State) : Prop where
  cleared : s.running = false
  awake : s.pc = .call ∨ s.pc = .wait → 0 < s.pending

/-- At most the count that is on its way is printed before the next test. -/
def due : Pc → Nat
  | .call | .wait | .ready | .got _ => 1
  | .test | .leave | .ended => 0

theorem left_le (pc : Pc) : left pc ≤ 6 := by
  cases pc <;> simp [left]

theorem ended_of_left {pc : Pc} (h : left pc = 0) : pc = .ended := by
  cases pc with
  | ended => rfl
  | _ => exact absurd h (by simp [left])

theorem due_le (pc : Pc) : due pc ≤ 1 := by
  cases pc <;> simp [due]

variable {s : State}

theorem go_running (s : State) : (go s).running = s.running := by
  unfold go
  split <;> try split_ifs
  all_goals rfl

theorem cleared_apply (h : s.running = false) (input : Input) :
    (s.apply input).running = false := by
  cases input with
  | expire => exact h
  | signal => rfl
  | run => exact (go_running s).trans h
  | fail =>
    simp only [State.apply]
    split_ifs
    · exact h
    · exact h

theorem due_go (h : s.running = false) :
    (go s).lines.length + due (go s).pc ≤ s.lines.length + due s.pc := by
  cases hpc : s.pc with
  | test => simp [go, hpc, h, due]
  | call => simp [go, hpc, due]
  | wait =>
    by_cases hzero : s.pending = 0
    · simp [go, hpc, hzero, due]
    · simp [go, hpc, hzero, due]
  | ready =>
    by_cases hzero : s.pending = 0
    · simp [go, hpc, hzero, due]
    · simp [go, hpc, hzero, due]
  | got x => simp [go, hpc, due]
  | leave => simp [go, hpc, due]
  | ended => simp [go, hpc, due]

theorem due_apply (h : s.running = false) (input : Input) :
    (s.apply input).lines.length + due (s.apply input).pc ≤ s.lines.length + due s.pc := by
  cases input with
  | expire => exact Nat.le_refl _
  | signal =>
    by_cases hwait : s.pc = .wait
    · simp [State.apply, onSig, hwait, due]
    · simp [State.apply, onSig, hwait]
  | run => exact due_go h
  | fail =>
    by_cases hwait : s.pc = .wait
    · simp [State.apply, hwait, due]
    · simp [State.apply, hwait]

theorem awake_go (h : Stopping s) : (go s).pc = .call ∨ (go s).pc = .wait → 0 < (go s).pending := by
  obtain ⟨hcleared, hawake⟩ := h
  cases hpc : s.pc with
  | test => simp [go, hpc, hcleared]
  | call => simpa [go, hpc] using hawake
  | wait =>
    have hpos : s.pending ≠ 0 := Nat.pos_iff_ne_zero.mp (hawake (Or.inr hpc))
    simp [go, hpc, hpos]
  | ready =>
    by_cases hzero : s.pending = 0
    · simp [go, hpc, hzero]
    · simp [go, hpc, hzero]
  | got x => simp [go, hpc]
  | leave => simp [go, hpc]
  | ended => simp [go, hpc]

theorem left_go (h : Stopping s) : left (go s).pc ≤ left s.pc - 1 := by
  obtain ⟨hcleared, hawake⟩ := h
  cases hpc : s.pc with
  | test => simp [go, hpc, hcleared, left]
  | call => simp [go, hpc, left]
  | wait =>
    have hpos : s.pending ≠ 0 := Nat.pos_iff_ne_zero.mp (hawake (Or.inr hpc))
    simp [go, hpc, hpos, left]
  | ready =>
    by_cases hzero : s.pending = 0
    · simp [go, hpc, hzero, left]
    · simp [go, hpc, hzero, left]
  | got x => simp [go, hpc, left]
  | leave => simp [go, hpc, left]
  | ended => simp [go, hpc, left]

theorem Stopping.apply (h : Stopping s) (input : Input) : Stopping (s.apply input) := by
  refine ⟨cleared_apply h.cleared input, ?_⟩
  cases input with
  | expire => exact fun _ => Nat.succ_pos _
  | signal =>
    by_cases hwait : s.pc = .wait
    · simp [State.apply, onSig, hwait]
    · simpa [State.apply, onSig, hwait] using h.awake
  | run => exact awake_go h
  | fail =>
    by_cases hwait : s.pc = .wait
    · simp [State.apply, hwait]
    · simpa [State.apply, hwait] using h.awake

theorem left_apply (h : Stopping s) (input : Input) :
    left (s.apply input).pc ≤ left s.pc - [input].count .run := by
  cases input with
  | expire => exact Nat.le_refl _
  | signal =>
    by_cases hwait : s.pc = .wait
    · simp [State.apply, onSig, hwait, left]
    · simp [State.apply, onSig, hwait]
  | run => exact left_go h
  | fail =>
    by_cases hwait : s.pc = .wait
    · simp [State.apply, hwait, left]
    · simp [State.apply, hwait]

/-- Every step of the program brings a program that stops nearer to its end. -/
theorem left_foldl (h : Stopping s) (inputs : List Input) :
    left (inputs.foldl State.apply s).pc ≤ left s.pc - inputs.count .run := by
  induction inputs generalizing s with
  | nil => exact Nat.le_refl _
  | cons input inputs ih =>
    have hstep := left_apply h input
    have hrest := ih (h.apply input)
    rw [List.foldl_cons, ← List.singleton_append, List.count_append]
    omega

theorem cleared_foldl (h : s.running = false) (inputs : List Input) :
    (inputs.foldl State.apply s).running = false ∧
      (inputs.foldl State.apply s).lines.length + due (inputs.foldl State.apply s).pc ≤
        s.lines.length + due s.pc := by
  induction inputs generalizing s with
  | nil => exact ⟨h, Nat.le_refl _⟩
  | cons input inputs ih =>
    obtain ⟨hcleared, hlines⟩ := ih (cleared_apply h input)
    exact ⟨hcleared, Nat.le_trans hlines (due_apply h input)⟩

theorem cleared_of_signal {inputs : List Input} (signal : .signal ∈ inputs) (s : State) :
    (inputs.foldl State.apply s).running = false := by
  obtain ⟨before, behind, rfl⟩ := List.append_of_mem signal
  rw [List.foldl_append]
  exact (cleared_foldl (s := State.apply _ .signal) rfl behind).1

theorem stopping_of_expire {inputs : List Input} (expire : .expire ∈ inputs)
    (h : s.running = false) : Stopping (inputs.foldl State.apply s) := by
  obtain ⟨before, behind, rfl⟩ := List.append_of_mem expire
  rw [List.foldl_append]
  have hbefore := (cleared_foldl h before).1
  have hexpired : Stopping ((before.foldl State.apply s).apply .expire) :=
    ⟨hbefore, fun _ => Nat.succ_pos _⟩
  exact List.foldlRecOn behind State.apply hexpired fun s hs input _ => hs.apply input

/-- Wherever a signal comes, even between the test of `running` and the sleep: with one more
expiration at the latest and six more steps the program has ended, and it prints at most one more
`[tick]` line; `bye`, or the message of `perror`, comes after the loop. -/
theorem ends_after_signal (pre mid post : List Input) (signal : .signal ∈ pre)
    (expire : .expire ∈ mid) (steps : 6 ≤ post.count .run) :
    (after (pre ++ mid ++ post)).pc = .ended ∧
      (after (pre ++ mid ++ post)).lines.length ≤ (after pre).lines.length + 1 := by
  have hcleared : (after pre).running = false := cleared_of_signal signal start
  have hstopping : Stopping (mid.foldl State.apply (after pre)) :=
    stopping_of_expire expire hcleared
  have hleft := left_foldl hstopping post
  have hlines := (cleared_foldl hcleared (mid ++ post)).2
  have hbound : left (mid.foldl State.apply (after pre)).pc ≤ 6 := left_le _
  have hrun : after (pre ++ mid ++ post) = (mid ++ post).foldl State.apply (after pre) := by
    rw [after, List.append_assoc, List.foldl_append]
    rfl
  rw [hrun]
  constructor
  · rw [List.foldl_append]
    exact ended_of_left (by omega)
  · have hdue := due_le (after pre).pc
    omega

/-- A signal between the test and the call of `epoll_wait`: the sleep lasts until the timer. -/
theorem ends_after_missed_signal :
    (after ([.run, .signal] ++ [.run, .run, .expire] ++ List.replicate 6 .run)).pc = .ended ∧
      (after ([.run, .signal] ++ [.run, .run, .expire] ++ List.replicate 6 .run)).lines.length ≤
        (after [.run, .signal]).lines.length + 1 :=
  ends_after_signal _ _ _ (by decide) (by decide) (by decide)

end Shutdown

end Evi7688.Python2c.TickLoop
