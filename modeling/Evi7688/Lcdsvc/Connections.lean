/- Evi7688/Lcdsvc/Connections
   digest: However clients interleave, the daemon serves their connections whole and in the order they came. -/

import Evi7688.Lcdsvc.Server
import Mathlib.Data.List.Induction

set_option autoImplicit false
set_option relaxedAutoImplicit false

namespace Evi7688.Lcdsvc.Connections

open LcdHw
open Service
open Server

/-- One connection: who made it, what was sent on it so far, and the reads that were served. -/
structure Connection where
  client : Nat
  sent : List UInt8
  pieces : List (List UInt8)
  deriving DecidableEq

def Connection.send (client : Nat) (bytes : List UInt8) (e : Connection) : Connection :=
  if e.client = client then { e with sent := e.sent ++ bytes } else e

/-- The connections that have ended, the one that is being served, and those that wait. -/
structure Log where
  ended : List Connection
  current : Option Connection
  waiting : List Connection
  deriving DecidableEq

namespace Log

def live (l : Log) : List Connection := l.current.toList ++ l.waiting

def served (l : Log) : List Connection := l.ended ++ l.current.toList

variable (s : State) (l : Log)

def connect (c : Nat) : Log :=
  if s.status c = .absent then { l with waiting := l.waiting ++ [⟨c, [], []⟩] } else l

def send (c : Nat) (bytes : List UInt8) : Log :=
  if s.status c = .connected then
    { l with
      current := l.current.map (Connection.send c bytes)
      waiting := l.waiting.map (Connection.send c bytes) }
  else l

def accept : Log :=
  match s.serving, l.waiting with
  | none, e :: waiting => { l with current := some e, waiting := waiting }
  | _, _ => l

def recv (n : Nat) : Log :=
  match s.serving with
  | some ⟨c, [], none⟩ =>
    if 1 ≤ n ∧ n ≤ 511 ∧ n ≤ (s.unread c).length then
      { l with
        current := l.current.map fun e => { e with pieces := e.pieces ++ [(s.unread c).take n] } }
    else l
  | _ => l

def recvEnds : Log :=
  match s.serving with
  | some ⟨_, [], none⟩ => { l with ended := l.served, current := none }
  | _ => l

/-- What a move adds to the log, in the state in which it is made. -/
def record : Action → Log
  | .connect c => l.connect s c
  | .send c bytes => l.send s c bytes
  | .accept => l.accept s
  | .recv n => l.recv s n
  | .recvEnds => l.recvEnds s
  | _ => l

end Log

def track (env : SysfsEnv) (x : State × Log) (a : Action) : State × Log :=
  (step env x.1 a, if x.1.alive then x.2.record x.1 a else x.2)

/-- A run of the daemon from its accept loop on, and its connections. -/
def tracked (env : SysfsEnv) (host : Host) (actions : List Action) : State × Log :=
  actions.foldl (track env) (start host, ⟨[], none, []⟩)

/-- The daemon once it has gone through the buffer that it has read. -/
def finish (env : SysfsEnv) (s : State) : Session :=
  match s.serving with
  | none => s.session
  | some v =>
    v.pending.foldl (handleLine env)
      (match v.owed with
      | none => s.session
      | some text => { s.session with replies := s.session.replies ++ [text] })

/-- One connection after the other. -/
def serveInOrder (env : SysfsEnv) (host : Host) (connections : List Connection) : Session :=
  connections.foldl (fun d e => handleClient env e.pieces d) ⟨host, [], []⟩

/-- The log describes the sockets, and the daemon has done what serving its connections in order
does. -/
structure InOrder (env : SysfsEnv) (host : Host) (s : State) (l : Log) : Prop where
  backlog : l.waiting.map Connection.client = s.backlog
  current : l.current.map Connection.client = s.serving.map Serving.client
  distinct : (l.live.map Connection.client).Nodup
  present : ∀ e ∈ l.live, s.status e.client ≠ .absent
  absent : ∀ c, s.status c = .absent → s.unread c = []
  unread : ∀ e ∈ l.live, e.sent = e.pieces.flatten ++ s.unread e.client
  unserved : ∀ e ∈ l.waiting, e.pieces = []
  partly : ∀ e ∈ l.ended, e.pieces.flatten <+: e.sent
  reads : ∀ e ∈ l.served, ∀ p ∈ e.pieces, p ≠ [] ∧ p.length ≤ 511
  work : finish env s = serveInOrder env host l.served

section Steps

variable {env : SysfsEnv} {host : Host} {s : State} {l : Log}

theorem handleLine_eq (x : Session) (line : List UInt8) :
    { carryOut env x line with replies := x.replies ++ [replyTo line] } =
      handleLine env x line := by
  have hreplies := replies_foldl env [line] x
  simp only [List.foldl_cons, List.foldl_nil, List.map_cons, List.map_nil] at hreplies
  rw [← hreplies]
  rfl

theorem handleClient_snoc (pieces : List (List UInt8)) (p : List UInt8) (x : Session) :
    handleClient env (pieces ++ [p]) x =
      (bufferLines p).foldl (handleLine env) (handleClient env pieces x) := by
  have hlines : dispatched [p] = bufferLines p := List.flatMap_singleton _ _
  have hlast := handleClient_eq env [p] (handleClient env pieces x)
  rw [hlines] at hlast
  rw [← hlast]
  exact List.foldl_append

theorem serveInOrder_append (a b : List Connection) :
    serveInOrder env host (a ++ b) =
      b.foldl (fun d e => handleClient env e.pieces d) (serveInOrder env host a) :=
  List.foldl_append

@[simp] theorem client_send (c : Nat) (bytes : List UInt8) (e : Connection) :
    (e.send c bytes).client = e.client := by
  unfold Connection.send
  split <;> rfl

@[simp] theorem pieces_send (c : Nat) (bytes : List UInt8) (e : Connection) :
    (e.send c bytes).pieces = e.pieces := by
  unfold Connection.send
  split <;> rfl

theorem pieces_served_send (s : State) (l : Log) (c : Nat) (bytes : List UInt8) :
    (l.send s c bytes).served.map Connection.pieces = l.served.map Connection.pieces := by
  unfold Log.send
  split_ifs
  · cases hcurrent : l.current <;> simp [Log.served, hcurrent]
  · rfl

theorem serveInOrder_pieces (es : List Connection) :
    serveInOrder env host es =
      (es.map Connection.pieces).foldl (fun d pieces => handleClient env pieces d)
        ⟨host, [], []⟩ := by
  rw [serveInOrder, List.foldl_map]

theorem inOrder_start : InOrder env host (start host) ⟨[], none, []⟩ where
  backlog := rfl
  current := rfl
  distinct := List.nodup_nil
  present := fun _ he => absurd he List.not_mem_nil
  absent := fun _ _ => rfl
  unread := fun _ he => absurd he List.not_mem_nil
  unserved := fun _ he => absurd he List.not_mem_nil
  partly := fun _ he => absurd he List.not_mem_nil
  reads := fun _ he => absurd he List.not_mem_nil
  work := rfl

theorem InOrder.connect (h : InOrder env host s l) (c : Nat) :
    InOrder env host (s.connect c) (l.connect s c) := by
  unfold State.connect Log.connect
  split_ifs with habsent
  · have hnew : c ∉ l.live.map Connection.client := by
      intro hmem
      obtain ⟨e, he, rfl⟩ := List.mem_map.mp hmem
      exact h.present e he habsent
    have hlive : ∀ e ∈ (⟨l.ended, l.current, l.waiting ++ [⟨c, [], []⟩]⟩ : Log).live,
        e ∈ l.live ∨ e = ⟨c, [], []⟩ := by
      intro e he
      simpa [Log.live, or_assoc] using he
    have hothers : ∀ e ∈ l.live, e.client ≠ c := fun e he heq =>
      hnew (List.mem_map.mpr ⟨e, he, heq⟩)
    constructor
    · simp [h.backlog]
    · exact h.current
    · have hsplit : (⟨l.ended, l.current, l.waiting ++ [⟨c, [], []⟩]⟩ : Log).live =
          l.live ++ [⟨c, [], []⟩] := by
        simp [Log.live]
      rw [hsplit, List.map_append, List.nodup_append]
      refine ⟨h.distinct, List.nodup_singleton _, ?_⟩
      intro a ha b hb heq
      obtain rfl := List.mem_singleton.mp hb
      exact hnew (heq ▸ ha)
    · intro e he
      rcases hlive e he with hold | rfl
      · simpa [Function.update_of_ne (hothers e hold)] using h.present e hold
      · simp
    · intro d hd
      by_cases hdc : d = c
      · subst hdc
        exact h.absent d habsent
      · simp only [Function.update_of_ne hdc] at hd
        exact h.absent d hd
    · intro e he
      rcases hlive e he with hold | rfl
      · exact h.unread e hold
      · simpa using (h.absent c habsent).symm
    · intro e he
      rcases List.mem_append.mp he with hold | hnew
      · exact h.unserved e hold
      · rw [List.mem_singleton.mp hnew]
    · exact h.partly
    · exact h.reads
    · exact h.work
  · exact h

theorem InOrder.send (h : InOrder env host s l) (c : Nat) (bytes : List UInt8) :
    InOrder env host (s.send c bytes) (l.send s c bytes) := by
  have hpieces := pieces_served_send s l c bytes
  unfold State.send
  unfold Log.send at hpieces ⊢
  split_ifs at hpieces ⊢ with hconnected
  · have hlive : (⟨l.ended, l.current.map (Connection.send c bytes),
        l.waiting.map (Connection.send c bytes)⟩ : Log).live =
          l.live.map (Connection.send c bytes) := by
      cases hcurrent : l.current <;> simp [Log.live, hcurrent]
    have hclients : ∀ es : List Connection,
        (es.map (Connection.send c bytes)).map Connection.client = es.map Connection.client := by
      intro es
      simp
    constructor
    · rw [hclients, h.backlog]
    · rw [← h.current]
      cases l.current <;> simp
    · rw [hlive, hclients]
      exact h.distinct
    · intro e he
      rw [hlive] at he
      obtain ⟨e, hold, rfl⟩ := List.mem_map.mp he
      simpa using h.present e hold
    · intro d hd
      have hdc : d ≠ c := by
        rintro rfl
        rw [hconnected] at hd
        cases hd
      simpa [Function.update_of_ne hdc] using h.absent d hd
    · intro e he
      rw [hlive] at he
      obtain ⟨e, hold, rfl⟩ := List.mem_map.mp he
      have hunread := h.unread e hold
      by_cases hec : e.client = c
      · subst hec
        simp [Connection.send, hunread]
      · simp [Connection.send, hec, hunread]
    · intro e he
      obtain ⟨e, hold, rfl⟩ := List.mem_map.mp he
      simpa using h.unserved e hold
    · exact h.partly
    · intro e he
      have hmem := List.mem_map_of_mem (f := Connection.pieces) he
      rw [hpieces] at hmem
      obtain ⟨e', he', hsame⟩ := List.mem_map.mp hmem
      rw [← hsame]
      exact h.reads e' he'
    · rw [serveInOrder_pieces, hpieces, ← serveInOrder_pieces]
      exact h.work
  · exact h

theorem InOrder.close (h : InOrder env host s l) (c : Nat) :
    InOrder env host (s.close c) l := by
  unfold State.close
  split_ifs with hconnected
  · refine { h with present := ?_, absent := ?_, work := h.work }
    · intro e he
      by_cases hec : e.client = c
      · simp [hec]
      · simpa [Function.update_of_ne hec] using h.present e he
    · intro d hd
      by_cases hdc : d = c
      · subst hdc
        simp at hd
      · simp only [Function.update_of_ne hdc] at hd
        exact h.absent d hd
  · exact h

theorem InOrder.accept (h : InOrder env host s l) : InOrder env host s.accept (l.accept s) := by
  unfold State.accept Log.accept
  have hbacklog := h.backlog
  cases hserving : s.serving with
  | some v => exact h
  | none =>
    have hidle : l.current = none := by
      have hcurrent := h.current
      rw [hserving] at hcurrent
      simpa using hcurrent
    cases hwaiting : l.waiting with
    | nil =>
      rw [hwaiting] at hbacklog
      rw [← hbacklog]
      exact h
    | cons e waiting =>
      rw [hwaiting, List.map_cons] at hbacklog
      rw [← hbacklog]
      have hlive : (⟨l.ended, some e, waiting⟩ : Log).live = l.live := by
        simp [Log.live, hidle, hwaiting]
      have hnew : e.pieces = [] := h.unserved e (by simp [hwaiting])
      have hserved : l.served = l.ended := by
        simp [Log.served, hidle]
      constructor
      · rfl
      · rfl
      · rw [hlive]
        exact h.distinct
      · rw [hlive]
        exact h.present
      · exact h.absent
      · rw [hlive]
        exact h.unread
      · exact fun e' he => h.unserved e' (by simp [hwaiting, he])
      · exact h.partly
      · intro e' he
        rcases List.mem_append.mp he with hended | hcurrent
        · exact h.reads e' (List.mem_append_left _ hended)
        · obtain rfl := List.mem_singleton.mp hcurrent
          simp [hnew]
      · have hwork := h.work
        rw [finish, hserving, hserved] at hwork
        have hnothing : handleClient env e.pieces (serveInOrder env host l.ended) =
            serveInOrder env host l.ended := by
          rw [hnew]
          rfl
        simp only [Log.served, Option.toList_some, serveInOrder_append, List.foldl_cons,
          List.foldl_nil, hnothing, finish]
        exact hwork

theorem InOrder.exists_current (h : InOrder env host s l) {v : Serving}
    (hserving : s.serving = some v) :
    ∃ e, l.current = some e ∧ e.client = v.client ∧ ∀ e' ∈ l.waiting, e'.client ≠ v.client := by
  have hcurrent := h.current
  rw [hserving, Option.map_some, Option.map_eq_some_iff] at hcurrent
  obtain ⟨e, he, hclient⟩ := hcurrent
  refine ⟨e, he, hclient, fun e' he' heq => ?_⟩
  have hdistinct := h.distinct
  simp only [Log.live, he, Option.toList_some, List.singleton_append, List.map_cons,
    List.nodup_cons] at hdistinct
  apply hdistinct.1
  rw [hclient, ← heq]
  exact List.mem_map_of_mem he'

/-- A `recv` either finds nothing to do or takes the next bytes of the current connection. -/
theorem recv_cases (s : State) (l : Log) (n : Nat) :
    (s.recv n = s ∧ l.recv s n = l) ∨
      ∃ c, s.serving = some ⟨c, [], none⟩ ∧ 1 ≤ n ∧ n ≤ 511 ∧ n ≤ (s.unread c).length ∧
        s.recv n =
          { s with
            unread := Function.update s.unread c ((s.unread c).drop n)
            serving := some ⟨c, bufferLines ((s.unread c).take n), none⟩ } ∧
        l.recv s n =
          { l with
            current := l.current.map fun e =>
              { e with pieces := e.pieces ++ [(s.unread c).take n] } } := by
  unfold State.recv Log.recv
  rcases hserving : s.serving with _ | ⟨c, _ | ⟨line, pending⟩, _ | text⟩
  · exact Or.inl ⟨rfl, rfl⟩
  · by_cases hn : 1 ≤ n ∧ n ≤ 511 ∧ n ≤ (s.unread c).length
    · exact Or.inr ⟨c, rfl, hn.1, hn.2.1, hn.2.2, if_pos hn, if_pos hn⟩
    · exact Or.inl ⟨if_neg hn, if_neg hn⟩
  all_goals exact Or.inl ⟨rfl, rfl⟩

theorem recvEnds_cases (s : State) (l : Log) :
    (s.recvEnds = s ∧ l.recvEnds s = l) ∨
      ∃ c, s.serving = some ⟨c, [], none⟩ ∧
        s.recvEnds =
          { s with
            status := Function.update s.status c .absent
            unread := Function.update s.unread c []
            serving := none } ∧
        l.recvEnds s = { l with ended := l.served, current := none } := by
  unfold State.recvEnds Log.recvEnds
  rcases hserving : s.serving with _ | ⟨c, _ | ⟨line, pending⟩, _ | text⟩
  · exact Or.inl ⟨rfl, rfl⟩
  · exact Or.inr ⟨c, rfl, rfl, rfl⟩
  all_goals exact Or.inl ⟨rfl, rfl⟩

theorem InOrder.recv (h : InOrder env host s l) (n : Nat) :
    InOrder env host (s.recv n) (l.recv s n) := by
  rcases recv_cases s l n with ⟨hs, hl⟩ | ⟨c, hserving, hpos, hroom, hlen, hs, hl⟩
  · rw [hs, hl]
    exact h
  · rw [hs, hl]
    obtain ⟨e, he, hclient, hothers⟩ := h.exists_current hserving
    obtain ⟨client, sent, pieces⟩ := e
    obtain rfl : client = c := hclient
    have hsent := h.unread ⟨client, sent, pieces⟩ (by simp [Log.live, he])
    simp only at hsent
    simp only [he, Option.map_some]
    constructor
    · exact h.backlog
    · rfl
    · have hdistinct := h.distinct
      simp only [Log.live, he] at hdistinct
      exact hdistinct
    · intro e' he'
      simp only [Log.live, Option.toList_some, List.singleton_append, List.mem_cons] at he'
      rcases he' with rfl | hwaiting
      · exact h.present ⟨client, sent, pieces⟩ (by simp [Log.live, he])
      · exact h.present e' (List.mem_append_right _ hwaiting)
    · intro d hd
      by_cases hdc : d = client
      · subst hdc
        exact absurd hd (h.present ⟨d, sent, pieces⟩ (by simp [Log.live, he]))
      · simpa [Function.update_of_ne hdc] using h.absent d hd
    · intro e' he'
      simp only [Log.live, Option.toList_some, List.singleton_append, List.mem_cons] at he'
      rcases he' with rfl | hwaiting
      · simp [hsent]
      · have hne : e'.client ≠ client := hothers e' hwaiting
        simpa [Function.update_of_ne hne] using h.unread e' (List.mem_append_right _ hwaiting)
    · exact h.unserved
    · exact h.partly
    · intro e' he'
      rcases List.mem_append.mp he' with hended | hcurrent
      · exact h.reads e' (List.mem_append_left _ hended)
      · obtain rfl := List.mem_singleton.mp hcurrent
        intro p hp
        rcases List.mem_append.mp hp with hold | hpiece
        · exact h.reads ⟨client, sent, pieces⟩ (by simp [Log.served, he]) p hold
        · obtain rfl := List.mem_singleton.mp hpiece
          have hpiece : ((s.unread client).take n).length = n := by
            rw [List.length_take]
            omega
          refine ⟨fun hnil => ?_, by omega⟩
          rw [hnil] at hpiece
          exact absurd hpiece (by simp; omega)
    · have hwork := h.work
      simp only [finish, hserving, Log.served, he, Option.toList_some, serveInOrder_append,
        List.foldl_cons, List.foldl_nil, handleClient_snoc] at hwork ⊢
      rw [hwork]

theorem InOrder.recvEnds (h : InOrder env host s l) :
    InOrder env host s.recvEnds (l.recvEnds s) := by
  rcases recvEnds_cases s l with ⟨hs, hl⟩ | ⟨c, hserving, hs, hl⟩
  · rw [hs, hl]
    exact h
  · rw [hs, hl]
    obtain ⟨e, he, hclient, hothers⟩ := h.exists_current hserving
    obtain rfl : e.client = c := hclient
    have hwaiting : ∀ e' ∈ (⟨l.served, none, l.waiting⟩ : Log).live, e' ∈ l.waiting := by
      intro e' he'
      simpa [Log.live] using he'
    constructor
    · exact h.backlog
    · rfl
    · have hdistinct := h.distinct
      simp only [Log.live, he, Option.toList_some, List.singleton_append, List.map_cons,
        List.nodup_cons] at hdistinct
      simpa [Log.live] using hdistinct.2
    · intro e' he'
      have hne : e'.client ≠ e.client := hothers e' (hwaiting e' he')
      simpa [Function.update_of_ne hne] using
        h.present e' (List.mem_append_right _ (hwaiting e' he'))
    · intro d hd
      by_cases hdc : d = e.client
      · subst hdc
        simp
      · simp only [Function.update_of_ne hdc] at hd ⊢
        exact h.absent d hd
    · intro e' he'
      have hne : e'.client ≠ e.client := hothers e' (hwaiting e' he')
      simpa [Function.update_of_ne hne] using
        h.unread e' (List.mem_append_right _ (hwaiting e' he'))
    · exact h.unserved
    · intro e' he'
      rcases List.mem_append.mp he' with hended | hcurrent
      · exact h.partly e' hended
      · simp only [he, Option.toList_some, List.mem_singleton] at hcurrent
        subst hcurrent
        rw [h.unread e' (by simp [Log.live, he])]
        exact List.prefix_append _ _
    · intro e' he'
      simp only [Log.served, Option.toList_none, List.append_nil] at he'
      exact h.reads e' he'
    · have hwork := h.work
      simp only [finish, hserving] at hwork
      simpa [finish, Log.served] using hwork

theorem InOrder.execute (h : InOrder env host s l) : InOrder env host (s.execute env) l := by
  unfold State.execute
  split
  · rename_i c line pending hserving
    have hcurrent := h.current
    rw [hserving] at hcurrent
    refine { h with current := hcurrent, work := ?_ }
    have hwork := h.work
    simp only [finish, hserving, List.foldl_cons] at hwork ⊢
    rw [← hwork, ← handleLine_eq]
    rfl
  · exact h

theorem InOrder.reply (h : InOrder env host s l) : InOrder env host s.reply l := by
  unfold State.reply
  split
  · rename_i c pending text hserving
    have hwork := h.work
    split_ifs
    · exact { h with work := hwork }
    · have hcurrent := h.current
      rw [hserving] at hcurrent
      refine { h with current := hcurrent, work := ?_ }
      simpa [finish, hserving] using hwork
  · exact h

theorem InOrder.track {x : State × Log} (h : InOrder env host x.1 x.2) (a : Action) :
    InOrder env host (track env x a).1 (track env x a).2 := by
  unfold Connections.track step
  by_cases halive : x.1.alive = true
  · rw [if_pos halive, if_pos halive]
    cases a with
    | connect c => exact h.connect c
    | send c bytes => exact h.send c bytes
    | close c => exact h.close c
    | accept => exact h.accept
    | acceptFails => exact h
    | recv n => exact h.recv n
    | recvEnds => exact h.recvEnds
    | execute => exact h.execute
    | reply => exact h.reply
  · rw [if_neg halive, if_neg halive]
    exact h

end Steps

section Runs

variable (env : SysfsEnv) (host : Host)

theorem fst_tracked (actions : List Action) :
    (tracked env host actions).1 = run env (start host) actions := by
  induction actions using List.reverseRecOn with
  | nil => rfl
  | append_singleton actions a ih =>
    rw [tracked, List.foldl_append, run, List.foldl_append]
    exact congrArg (step env · a) ih

theorem inOrder_tracked (actions : List Action) :
    InOrder env host (tracked env host actions).1 (tracked env host actions).2 := by
  induction actions using List.reverseRecOn with
  | nil => exact inOrder_start
  | append_singleton actions a ih =>
    rw [tracked, List.foldl_append]
    exact ih.track a

/-- The client whose `connect` makes a connection. -/
def arriving (s : State) : Action → List Nat
  | .connect c => if s.alive ∧ s.status c = .absent then [c] else []
  | _ => []

def arrivals : State → List Action → List Nat
  | _, [] => []
  | s, a :: actions => arriving s a ++ arrivals (step env s a) actions

def Log.clients (l : Log) : List Nat := (l.served ++ l.waiting).map Connection.client

variable {env host} {s : State} {l : Log}

theorem clients_record (h : InOrder env host s l) (a : Action) (halive : s.alive = true) :
    (l.record s a).clients = l.clients ++ arriving s a := by
  cases a with
  | connect c =>
    by_cases habsent : s.status c = .absent <;>
      simp [Log.record, Log.connect, arriving, Log.clients, Log.served, halive, habsent]
  | send c bytes =>
    by_cases hconnected : s.status c = .connected
    · cases hcurrent : l.current <;>
        simp [Log.record, Log.send, arriving, Log.clients, Log.served, hconnected, hcurrent]
    · simp [Log.record, Log.send, arriving, hconnected]
  | accept =>
    have hcurrent := h.current
    cases hserving : s.serving with
    | some v => simp [Log.record, Log.accept, arriving, hserving]
    | none =>
      rw [hserving, Option.map_none, Option.map_eq_none_iff] at hcurrent
      cases hwaiting : l.waiting <;>
        simp [Log.record, Log.accept, arriving, Log.clients, Log.served, hserving, hcurrent,
          hwaiting]
  | recv n =>
    rcases recv_cases s l n with ⟨-, hl⟩ | ⟨c, -, -, -, -, -, hl⟩
    · simp [Log.record, hl, arriving]
    · cases hcurrent : l.current <;>
        simp [Log.record, hl, arriving, Log.clients, Log.served, hcurrent]
  | recvEnds =>
    rcases recvEnds_cases s l with ⟨-, hl⟩ | ⟨c, -, -, hl⟩
    · simp [Log.record, hl, arriving]
    · simp [Log.record, hl, arriving, Log.clients, Log.served]
  | _ => simp [Log.record, arriving]

theorem arrivals_append (s : State) (before after : List Action) :
    arrivals env s (before ++ after) =
      arrivals env s before ++ arrivals env (run env s before) after := by
  induction before generalizing s with
  | nil => rfl
  | cons a before ih =>
    rw [List.cons_append, arrivals, ih, arrivals, List.append_assoc]
    rfl

theorem clients_tracked (actions : List Action) :
    (tracked env host actions).2.clients = arrivals env (start host) actions := by
  induction actions using List.reverseRecOn with
  | nil => rfl
  | append_singleton actions a ih =>
    have hinOrder := inOrder_tracked env host actions
    have hfst := fst_tracked env host actions
    have hstep : (tracked env host (actions ++ [a])).2 =
        (track env (tracked env host actions) a).2 := by
      rw [tracked, List.foldl_append]
      rfl
    have hlast : arrivals env (run env (start host) actions) [a] =
        arriving (run env (start host) actions) a := List.append_nil _
    rw [arrivals_append, hlast, ← hfst, ← ih, hstep, track]
    by_cases halive : (tracked env host actions).1.alive = true
    · rw [if_pos halive]
      exact clients_record hinOrder a halive
    · rw [if_neg halive]
      cases a <;> simp [arriving, halive]

/-- Whatever clients connect, send and close in whatever order, and however `recv` cuts what they
send: the daemon has done, up to the buffer in hand, what serving the connections one after the
other in the order of their arrival does, each with a part of its own bytes and no others. -/
theorem connections_in_order (env : SysfsEnv) (host : Host) (actions : List Action) :
    InOrder env host (run env (start host) actions) (tracked env host actions).2 ∧
      (tracked env host actions).2.clients = arrivals env (start host) actions := by
  refine ⟨?_, clients_tracked actions⟩
  rw [← fst_tracked]
  exact inOrder_tracked env host actions

end Runs

end Evi7688.Lcdsvc.Connections
