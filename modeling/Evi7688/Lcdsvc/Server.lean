/- Evi7688/Lcdsvc/Server
   digest: The accept loop of the LCD daemon among clients that connect, send and close. -/

import Evi7688.Lcdsvc.Service

set_option autoImplicit false
set_option relaxedAutoImplicit false

namespace Evi7688.Lcdsvc.Server

open Evi7688.Library.Bytes (ascii newline)
open Evi7688.Library.Delimited
open LcdHw
open Service

inductive Status
  | absent | connected | closed
  deriving DecidableEq

/-- Inside `handle_client`: the lines of the buffer still to come, and the reply not yet written. -/
structure Serving where
  client : Nat
  pending : List (List UInt8)
  owed : Option (List UInt8)
  deriving DecidableEq

/-- The daemon in its accept loop and the sockets of its clients. -/
structure State where
  alive : Bool
  status : Nat → Status
  unread : Nat → List UInt8
  backlog : List Nat
  serving : Option Serving
  session : Session

/-- The moves of the clients, then those of the daemon. -/
inductive Action
  | connect (c : Nat)
  | send (c : Nat) (bytes : List UInt8)
  | close (c : Nat)
  | accept
  | acceptFails
  | recv (n : Nat)
  | recvEnds
  | execute
  | reply
  deriving DecidableEq

/-- What a line does before its answer is written. -/
def carryOut (env : SysfsEnv) (s : Session) (line : List UInt8) : Session :=
  { handleLine env s line with replies := s.replies }

namespace State

variable (s : State)

def connect (c : Nat) : State :=
  if s.status c = .absent then
    { s with status := Function.update s.status c .connected, backlog := s.backlog ++ [c] }
  else s

def send (c : Nat) (bytes : List UInt8) : State :=
  if s.status c = .connected then
    { s with unread := Function.update s.unread c (s.unread c ++ bytes) }
  else s

def close (c : Nat) : State :=
  if s.status c = .connected then { s with status := Function.update s.status c .closed } else s

def accept : State :=
  match s.serving, s.backlog with
  | none, c :: backlog => { s with backlog := backlog, serving := some ⟨c, [], none⟩ }
  | _, _ => s

/-- `recv` returns `n` bytes, which the inner loop of `handle_client` then goes through. -/
def recv (n : Nat) : State :=
  match s.serving with
  | some ⟨c, [], none⟩ =>
    if 1 ≤ n ∧ n ≤ 511 ∧ n ≤ (s.unread c).length then
      { s with
        unread := Function.update s.unread c ((s.unread c).drop n)
        serving := some ⟨c, bufferLines ((s.unread c).take n), none⟩ }
    else s
  | _ => s

/-- `recv` returns no bytes, at the end of the stream or after an error; `main` closes `cfd`. -/
def recvEnds : State :=
  match s.serving with
  | some ⟨c, [], none⟩ =>
    { s with
      status := Function.update s.status c .absent
      unread := Function.update s.unread c []
      serving := none }
  | _ => s

def execute (env : SysfsEnv) : State :=
  match s.serving with
  | some ⟨c, line :: pending, none⟩ =>
    { s with
      serving := some ⟨c, pending, some (replyTo line)⟩
      session := carryOut env s.session line }
  | _ => s

def reply : State :=
  match s.serving with
  | some ⟨c, pending, some text⟩ =>
    -- nothing in the daemon ignores `SIGPIPE` or asks `dprintf` not to raise it
    if s.status c = .closed then { s with alive := false }
    else
      { s with
        serving := some ⟨c, pending, none⟩
        session := { s.session with replies := s.session.replies ++ [text] } }
  | _ => s

end State

def move (env : SysfsEnv) (s : State) : Action → State
  | .connect c => s.connect c
  | .send c bytes => s.send c bytes
  | .close c => s.close c
  | .accept => s.accept
  -- `accept` is tried again
  | .acceptFails => s
  | .recv n => s.recv n
  | .recvEnds => s.recvEnds
  | .execute => s.execute env
  | .reply => s.reply

def step (env : SysfsEnv) (s : State) (a : Action) : State := if s.alive then move env s a else s

def run (env : SysfsEnv) (s : State) (actions : List Action) : State := actions.foldl (step env) s

/-- The daemon as it enters the accept loop. -/
def start (host : Host) : State := ⟨true, fun _ => .absent, fun _ => [], [], none, ⟨host, [], []⟩⟩

/-- A line of `c` is in its buffer, being carried out, or not answered yet. -/
def Busy (s : State) (c : Nat) : Prop :=
  ∃ v, s.serving = some v ∧ v.client = c ∧ (v.pending ≠ [] ∨ v.owed ≠ none)

def Owes (s : State) (c : Nat) : Prop := newline ∈ s.unread c ∨ Busy s c

/-- Who closes has no line left to be answered. -/
def Patient (s : State) (a : Action) : Prop := ∀ c, a = .close c → ¬ Owes s c

def PatientRun (env : SysfsEnv) : State → List Action → Prop
  | _, [] => True
  | s, a :: actions => Patient s a ∧ PatientRun env (step env s a) actions

/-- No client that left is still owed an answer. -/
structure Quiet (s : State) : Prop where
  alive : s.alive = true
  settled : ∀ c, s.status c = .closed → ¬ Owes s c

section Safety

variable {env : SysfsEnv} {s : State}

theorem quiet_start (host : Host) : Quiet (start host) := by
  refine ⟨rfl, ?_⟩
  intro c hc
  cases hc

theorem not_owes_iff {c : Nat} : ¬ Owes s c ↔ newline ∉ s.unread c ∧ ¬ Busy s c := not_or

theorem Quiet.connect (h : Quiet s) (c : Nat) : Quiet (s.connect c) := by
  unfold State.connect
  split
  · refine ⟨h.alive, fun d hd => ?_⟩
    by_cases hdc : d = c
    · subst hdc
      simp at hd
    · simp only [Function.update_of_ne hdc] at hd
      exact h.settled d hd
  · exact h

theorem Quiet.send (h : Quiet s) (c : Nat) (bytes : List UInt8) :
    Quiet (s.send c bytes) := by
  unfold State.send
  split
  · rename_i hconnected
    refine ⟨h.alive, fun d hd => ?_⟩
    have hdc : d ≠ c := by
      rintro rfl
      rw [hconnected] at hd
      cases hd
    have hunread : newline ∉ s.unread d := (not_owes_iff.mp (h.settled d hd)).1
    have hidle : ¬ Busy s d := (not_owes_iff.mp (h.settled d hd)).2
    refine not_owes_iff.mpr ⟨?_, hidle⟩
    simpa [Function.update_of_ne hdc] using hunread
  · exact h

theorem Quiet.close (h : Quiet s) {c : Nat} (hc : ¬ Owes s c) :
    Quiet (s.close c) := by
  unfold State.close
  split
  · refine ⟨h.alive, fun d hd => ?_⟩
    by_cases hdc : d = c
    · subst hdc
      exact hc
    · simp only [Function.update_of_ne hdc] at hd
      exact h.settled d hd
  · exact h

theorem Quiet.of_serving (h : Quiet s) {backlog : List Nat} {serving : Option Serving}
    {session : Session}
    (hbusy : ∀ c, Busy { s with backlog, serving, session } c → Busy s c) :
    Quiet { s with backlog, serving, session } := by
  refine ⟨h.alive, fun c hc => ?_⟩
  obtain ⟨hline, hidle⟩ := not_owes_iff.mp (h.settled c hc)
  exact not_owes_iff.mpr ⟨hline, fun hbusy' => hidle (hbusy c hbusy')⟩

theorem Quiet.accept (h : Quiet s) : Quiet s.accept := by
  unfold State.accept
  split
  · apply h.of_serving
    rintro c ⟨v, hv, -, hwork⟩
    cases hv
    simp at hwork
  · exact h

theorem Quiet.recvEnds (h : Quiet s) : Quiet s.recvEnds := by
  unfold State.recvEnds
  split
  · rename_i c hserving
    refine ⟨h.alive, fun d hd => ?_⟩
    have hdc : d ≠ c := by
      rintro rfl
      simp at hd
    simp only [Function.update_of_ne hdc] at hd
    obtain ⟨hline, -⟩ := not_owes_iff.mp (h.settled d hd)
    refine not_owes_iff.mpr ⟨?_, ?_⟩
    · simpa [Function.update_of_ne hdc] using hline
    · rintro ⟨v, hv, -⟩
      cases hv
  · exact h

theorem Quiet.recv (h : Quiet s) (n : Nat) : Quiet (s.recv n) := by
  unfold State.recv
  split
  · rename_i c hserving
    split_ifs with hn
    · refine ⟨h.alive, fun d hd => ?_⟩
      obtain ⟨hline, -⟩ := not_owes_iff.mp (h.settled d hd)
      refine not_owes_iff.mpr ⟨?_, ?_⟩
      · by_cases hdc : d = c
        · subst hdc
          simp only [Function.update_self]
          exact fun hmem => hline (List.mem_of_mem_drop hmem)
        · simp only [Function.update_of_ne hdc]
          exact hline
      · rintro ⟨v, hv, rfl, hwork⟩
        cases hv
        -- what is left of a departed client holds no line
        have hlines : bufferLines ((s.unread c).take n) = [] :=
          bufferLines_of_notMem fun hmem => hline (List.mem_of_mem_take hmem)
        simp [hlines] at hwork
    · exact h
  · exact h

theorem Quiet.execute (h : Quiet s) : Quiet (s.execute env) := by
  unfold State.execute
  split
  · rename_i c line pending hserving
    apply h.of_serving
    rintro d ⟨v, hv, rfl, -⟩
    cases hv
    exact ⟨_, hserving, rfl, Or.inl (List.cons_ne_nil _ _)⟩
  · exact h

theorem Quiet.reply (h : Quiet s) : Quiet s.reply := by
  unfold State.reply
  split
  · rename_i c pending text hserving
    have hbusy : Busy s c := ⟨_, hserving, rfl, Or.inr (Option.some_ne_none _)⟩
    have hhere : s.status c ≠ .closed := fun hc => h.settled c hc (Or.inr hbusy)
    rw [if_neg hhere]
    apply h.of_serving
    rintro d ⟨v, hv, rfl, -⟩
    cases hv
    exact hbusy
  · exact h

theorem Quiet.step (h : Quiet s) {a : Action} (ha : Patient s a) : Quiet (step env s a) := by
  unfold Server.step
  rw [if_pos h.alive]
  cases a with
  | connect c => exact h.connect c
  | send c bytes => exact h.send c bytes
  | close c => exact h.close (ha c rfl)
  | accept => exact h.accept
  | acceptFails => exact h
  | recv n => exact h.recv n
  | recvEnds => exact h.recvEnds
  | execute => exact h.execute
  | reply => exact h.reply

theorem Quiet.run {actions : List Action} (h : Quiet s) (hrun : PatientRun env s actions) :
    Quiet (run env s actions) := by
  induction actions generalizing s with
  | nil => exact h
  | cons a actions ih => exact ih (h.step hrun.1) hrun.2

theorem PatientRun.of_prefix {before actions : List Action} (hrun : PatientRun env s actions)
    (hbefore : before <+: actions) : PatientRun env s before := by
  induction before generalizing s actions with
  | nil => trivial
  | cons a before ih =>
    obtain ⟨after, rfl⟩ := hbefore
    exact ⟨hrun.1, ih hrun.2 ⟨after, rfl⟩⟩

end Safety

/-- As long as no client closes with a line of it unanswered, the daemon keeps running. -/
theorem alive_of_patientRun (env : SysfsEnv) (host : Host) (actions : List Action)
    (hrun : PatientRun env (start host) actions) {before : List Action}
    (hbefore : before <+: actions) : (run env (start host) before).alive = true :=
  ((quiet_start host).run (hrun.of_prefix hbefore)).alive

def aClient : List Action := [.connect 0, .send 0 (ascii "CLEAR\n"), .accept, .recv 6, .execute]

theorem alive_of_answered_client :
    PatientRun openEnv (start openHost) (aClient ++ [.reply, .close 0, .recvEnds]) ∧
    (run openEnv (start openHost) (aClient ++ [.reply, .close 0, .recvEnds])).alive = true := by
  have hpatient : PatientRun openEnv (start openHost)
      (aClient ++ [.reply, .close 0, .recvEnds]) := by
    refine ⟨nofun, nofun, nofun, nofun, nofun, nofun, ?_, nofun, trivial⟩
    intro c hc
    cases hc
    refine not_owes_iff.mpr ⟨List.not_mem_nil, ?_⟩
    rintro ⟨v, hv, -, hwork⟩
    obtain rfl : v = ⟨0, [], none⟩ := (Option.some.inj hv).symm
    simp at hwork
  exact ⟨hpatient, alive_of_patientRun _ _ _ hpatient List.prefix_rfl⟩

theorem not_always_alive :
    ¬ ∀ (env : SysfsEnv) (host : Host) (actions : List Action),
      (run env (start host) actions).alive = true := by
  intro h
  have hdies : (run openEnv (start openHost) (aClient ++ [.close 0, .reply])).alive = false := rfl
  rw [h] at hdies
  cases hdies

section Answers

variable (env : SysfsEnv) {s : State} {c : Nat}

theorem dies_of_departed (hbusy : Busy s c) (hclosed : s.status c = .closed) :
    (run env s [.execute, .reply]).alive = false := by
  by_cases halive : s.alive = true
  · obtain ⟨⟨d, pending, owed⟩, hserving, rfl, hwork⟩ := hbusy
    cases owed with
    | some text =>
      simp [run, step, move, State.execute, State.reply, halive, hserving, hclosed]
    | none =>
      obtain ⟨line, pending, rfl⟩ := List.exists_cons_of_ne_nil (hwork.resolve_right (by simp))
      simp [run, step, move, State.execute, State.reply, halive, hserving, hclosed]
  · simp [run, step, halive]

theorem answer_line (line : List UInt8) (pending : List (List UInt8)) (x : Session)
    (halive : s.alive = true) (hhere : s.status c ≠ .closed) :
    run env { s with serving := some ⟨c, line :: pending, none⟩, session := x }
        [.execute, .reply] =
      { s with serving := some ⟨c, pending, none⟩, session := handleLine env x line } := by
  have hanswered : { carryOut env x line with replies := x.replies ++ [replyTo line] } =
      handleLine env x line := by
    have hreplies := replies_foldl env [line] x
    simp only [List.foldl_cons, List.foldl_nil, List.map_cons, List.map_nil] at hreplies
    rw [← hreplies]
    rfl
  simp only [run, List.foldl_cons, List.foldl_nil, step, move, halive, if_true, State.execute,
    State.reply, hhere, if_false]
  rw [← hanswered]
  rfl

/-- Going through the lines of a buffer, one after the other. -/
def answers (n : Nat) : List Action := (List.replicate n [Action.execute, Action.reply]).flatten

theorem answer_lines (lines : List (List UInt8)) (x : Session) (halive : s.alive = true)
    (hhere : s.status c ≠ .closed) :
    run env { s with serving := some ⟨c, lines, none⟩, session := x } (answers lines.length) =
      { s with serving := some ⟨c, [], none⟩, session := lines.foldl (handleLine env) x } := by
  induction lines generalizing x with
  | nil => rfl
  | cons line lines ih =>
    rw [answers, List.length_cons, List.replicate_succ, List.flatten_cons, run, List.foldl_append]
    have hline := answer_line env line lines x halive hhere
    rw [run] at hline
    rw [hline]
    exact ih (handleLine env x line)

/-- With its client there, a `recv` and the answers to its buffer are a round of the outer loop. -/
theorem serve_piece {n : Nat} (halive : s.alive = true) (hhere : s.status c ≠ .closed)
    (hserving : s.serving = some ⟨c, [], none⟩) (hpos : 1 ≤ n) (hroom : n ≤ 511)
    (hunread : n ≤ (s.unread c).length) :
    run env s (.recv n :: answers (bufferLines ((s.unread c).take n)).length) =
      { s with
        unread := Function.update s.unread c ((s.unread c).drop n)
        serving := some ⟨c, [], none⟩
        session := handleClient env [(s.unread c).take n] s.session } := by
  have hrecv : step env s (.recv n) =
      { s with
        unread := Function.update s.unread c ((s.unread c).drop n)
        serving := some ⟨c, bufferLines ((s.unread c).take n), none⟩ } := by
    simp only [step, halive, if_true, move, State.recv, hserving, hpos, hroom, hunread,
      and_self]
  have hrun : run env s (.recv n :: answers (bufferLines ((s.unread c).take n)).length) =
      run env (step env s (.recv n)) (answers (bufferLines ((s.unread c).take n)).length) := rfl
  have hlines : dispatched [(s.unread c).take n] = bufferLines ((s.unread c).take n) :=
    List.flatMap_singleton _ _
  rw [hrun, hrecv, handleClient_eq, hlines]
  exact answer_lines env (s := { s with
    unread := Function.update s.unread c ((s.unread c).drop n) }) _ _ halive hhere

end Answers

end Evi7688.Lcdsvc.Server
