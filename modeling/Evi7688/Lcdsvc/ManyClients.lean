/- Evi7688/Lcdsvc/ManyClients
   digest: What the panel shows at any moment while any number of clients use the daemon. -/

import Evi7688.Lcdsvc.Connections
import Evi7688.Lcdsvc.Display

set_option autoImplicit false
set_option relaxedAutoImplicit false

namespace Evi7688.Lcdsvc.ManyClients

open Evi7688.Library.Bytes (ascii)
open Evi7688.Library.CharacterPicture (Picture)
open LcdHw
open Service
open Server
open Connections
open Display
open OpenHandles (started)
open PanelCursor (SysfsSound openEnv_sound)

/-- The commands that the connections brought, in the order in which they were read. -/
def brought (l : Log) : List Command :=
  (l.served.flatMap fun e => dispatched e.pieces).filterMap named

/-- The commands in the buffer that are still to come. -/
def inHand (s : State) : List Command := (s.serving.elim [] Serving.pending).filterMap named

/-- The daemon has carried out what the connections brought, but for what is in hand. -/
structure Progress (env : SysfsEnv) (host : Host) (s : State) (l : Log) : Prop where
  carried : s.session.host = s.session.executed.foldl (fun h c => runCommand env c h) host
  order : brought l = s.session.executed ++ inHand s

section Steps

variable {env : SysfsEnv} {host : Host} {s : State} {l : Log}

theorem inHand_of_idle {c : Nat} {owed : Option (List UInt8)}
    (hserving : s.serving = some ⟨c, [], owed⟩) : inHand s = [] := by
  rw [inHand, hserving]
  rfl

theorem carryOut_eq (env : SysfsEnv) (d : Session) (line : List UInt8) :
    (carryOut env d line).host = (named line).toList.foldl (fun h c => runCommand env c h) d.host ∧
      (carryOut env d line).executed = d.executed ++ (named line).toList := by
  cases hd : dispatch line with
  | error reply =>
    rw [carryOut, handleLine_of_error env d hd, named_of_error hd]
    exact ⟨rfl, (List.append_nil _).symm⟩
  | ok c =>
    rw [carryOut, handleLine_of_ok env d hd, named_of_ok hd]
    exact ⟨rfl, rfl⟩

theorem brought_eq (l : Log) :
    brought l = ((l.served.map Connection.pieces).flatMap dispatched).filterMap named := by
  rw [brought, List.flatMap_map]

theorem brought_send (c : Nat) (bytes : List UInt8) :
    brought (l.send s c bytes) = brought l := by
  rw [brought_eq, pieces_served_send, ← brought_eq]

theorem brought_accept (h : InOrder env host s l) : brought (l.accept s) = brought l := by
  unfold Log.accept
  split
  · rename_i e waiting hserving hwaiting
    have hcurrent := h.current
    rw [hserving, Option.map_none, Option.map_eq_none_iff] at hcurrent
    have hnew : e.pieces = [] := h.unserved e (by simp [hwaiting])
    simp [brought, Log.served, hcurrent, hnew, dispatched]
  · rfl

theorem inHand_accept (s : State) : inHand s.accept = inHand s := by
  unfold State.accept
  split
  · rename_i c backlog hserving hbacklog
    rw [inHand, inHand, hserving]
    rfl
  · rfl

theorem Progress.recv (h : Progress env host s l) (order : InOrder env host s l) (n : Nat) :
    Progress env host (s.recv n) (l.recv s n) := by
  rcases recv_cases s l n with ⟨hs, hl⟩ | ⟨c, hserving, -, -, -, hs, hl⟩
  · rw [hs, hl]
    exact h
  · rw [hs, hl]
    obtain ⟨e, he, -, -⟩ := order.exists_current hserving
    refine ⟨h.carried, ?_⟩
    have hbrought := h.order
    rw [inHand_of_idle hserving, List.append_nil] at hbrought
    rw [← hbrought]
    simp [brought, Log.served, he, inHand, dispatched]

theorem Progress.recvEnds (h : Progress env host s l) :
    Progress env host s.recvEnds (l.recvEnds s) := by
  rcases recvEnds_cases s l with ⟨hs, hl⟩ | ⟨c, hserving, hs, hl⟩
  · rw [hs, hl]
    exact h
  · rw [hs, hl]
    have hbrought := h.order
    rw [inHand_of_idle hserving] at hbrought
    exact ⟨h.carried, by simpa [brought, Log.served, inHand] using hbrought⟩

theorem Progress.execute (h : Progress env host s l) : Progress env host (s.execute env) l := by
  unfold State.execute
  split
  · rename_i c line pending hserving
    obtain ⟨hhost, hexecuted⟩ := carryOut_eq env s.session line
    refine ⟨?_, ?_⟩
    · rw [hhost, hexecuted, List.foldl_append, ← h.carried]
    · have hbrought := h.order
      rw [hbrought, hexecuted, List.append_assoc]
      congr 1
      rw [inHand, hserving]
      cases hnamed : named line <;> simp [inHand, hnamed]
  · exact h

theorem Progress.reply (h : Progress env host s l) : Progress env host s.reply l := by
  unfold State.reply
  split
  · rename_i c pending text hserving
    split_ifs
    · exact ⟨h.carried, h.order⟩
    · have hbrought := h.order
      rw [inHand, hserving] at hbrought
      exact ⟨h.carried, hbrought⟩
  · exact h

theorem Progress.track {x : State × Log} (h : Progress env host x.1 x.2)
    (order : InOrder env host x.1 x.2) (a : Action) :
    Progress env host (track env x a).1 (track env x a).2 := by
  unfold Connections.track step
  by_cases halive : x.1.alive = true
  · rw [if_pos halive, if_pos halive]
    cases a with
    | connect c =>
      simp only [move, Log.record, State.connect, Log.connect]
      split_ifs <;> exact ⟨h.carried, h.order⟩
    | send c bytes =>
      refine ⟨?_, (brought_send c bytes).trans ?_⟩
      · simp only [move, State.send]
        split_ifs <;> exact h.carried
      · simp only [move, State.send]
        split_ifs <;> exact h.order
    | close c =>
      simp only [move, Log.record, State.close]
      split_ifs <;> exact ⟨h.carried, h.order⟩
    | accept =>
      have hsession : x.1.accept.session = x.1.session := by
        unfold State.accept
        split <;> rfl
      refine ⟨?_, (brought_accept order).trans ?_⟩
      · simp only [move, hsession]
        exact h.carried
      · simp only [move, hsession, inHand_accept]
        exact h.order
    | acceptFails => exact h
    | recv n => exact h.recv order n
    | recvEnds => exact h.recvEnds
    | execute => exact h.execute
    | reply => exact h.reply
  · rw [if_neg halive, if_neg halive]
    exact h

end Steps

section Panel

variable {env : SysfsEnv} {beside : Bool → Fin 128 → Fin 128} {start : Picture} {b : Board}

variable (sound : SysfsSound env)

include sound

end Panel

end Evi7688.Lcdsvc.ManyClients
