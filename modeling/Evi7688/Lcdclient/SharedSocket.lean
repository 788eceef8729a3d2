/- Evi7688/Lcdclient/SharedSocket
   digest: Threads of one client process that change the socket path and send commands at once. -/

import Evi7688.Library.Bytes
import Evi7688.Library.Monitor
import Mathlib.Data.List.GetD
import Mathlib.Data.List.Induction

set_option autoImplicit false
set_option relaxedAutoImplicit false

namespace Evi7688.Lcdclient.SharedSocket

open Evi7688.Library.Bytes
open Evi7688.Library.Monitor

/-- What reaches the outside: a `connect` to a path, and a line written to the connection. -/
inductive Io
  | connect (path : List UInt8)
  | line (text : List UInt8)
  deriving DecidableEq

/-- The array `g_sock_path`, byte by byte, and what has been sent so far. -/
structure Shared where
  gSockPath : Nat → UInt8
  log : List Io

/-- `evi_lcd_set_socket` with a path, and a command whose `socket` and `connect` succeed or not. -/
inductive ClientCall
  | setSocket (path : CString)
  | sendCmd (cmd : List UInt8) (socket connect : Bool)
  deriving DecidableEq

def store (i : Nat) (b : UInt8) (s : Shared) : Shared :=
  { s with gSockPath := Function.update s.gSockPath i b }

def emit (io : Io) (s : Shared) : Shared := { s with log := s.log ++ [io] }

/-- `strncpy` of `n` bytes into the array, which fills it up with NULs. -/
def strncpySteps (path : List UInt8) (n : Nat) : List (Shared → Shared) :=
  (List.range n).map fun i => store i (path.getD i 0)

/-- `strncpy` out of the array: it looks at one byte after the other, up to a NUL. -/
def readPath : Nat → Nat → List UInt8 → (List UInt8 → Code Shared) → Code Shared
  | 0, _, got, k => k got
  | n + 1, i, got, k =>
    .act id fun s =>
      if s.gSockPath i = 0 then k got else readPath n (i + 1) (got ++ [s.gSockPath i]) k

def setSocket (path : CString) : Code Shared :=
  .lock <| Code.steps (strncpySteps path.bytes 127) <| .act (store 127 0) fun _ => .unlock .ret

/-- `send_cmd`: `sun_path` has 108 bytes, the last one cleared. -/
def sendCmd (cmd : List UInt8) (socket connect : Bool) : Code Shared :=
  .lock <|
    if !socket then .unlock .ret
    else readPath 107 0 [] fun path => .act (emit (.connect path)) fun _ =>
      if !connect then .unlock .ret
      else .act (emit (.line (cmd ++ [newline]))) fun _ => .unlock .ret

def eviLcd : ClientCall → Code Shared
  | .setSocket path => setSocket path
  | .sendCmd cmd socket connect => sendCmd cmd socket connect

/-- The client as it is meant: one path at a time, and a command goes to the path of its moment. -/
structure Client where
  path : CArray 128
  log : List Io

def Client.initial : Client := ⟨.copy 128 (by decide) (some (literal "/var/run/evi-lcd.sock")), []⟩

def Client.call (c : Client) : ClientCall → Client
  | .setSocket path => { c with path := .copy 128 (by decide) (some path) }
  | .sendCmd cmd socket connect =>
    { c with
      log := c.log ++ if !socket then [] else
        .connect (c.path.bytes.take 107) :: if !connect then [] else [.line (cmd ++ [newline])] }

def after (calls : List ClientCall) : Client := calls.foldl Client.call .initial

def Shared.of (c : Client) : Shared := ⟨fun i => c.path.bytes.getD i 0, c.log⟩

section Sequential

theorem foldl_strncpySteps (path : List UInt8) (n : Nat) (s : Shared) :
    (strncpySteps path n).foldl (fun s f => f s) s =
      { s with gSockPath := fun i => if i < n then path.getD i 0 else s.gSockPath i } := by
  induction n with
  | zero => simp [strncpySteps]
  | succ n ih =>
    have hlast : strncpySteps path (n + 1) = strncpySteps path n ++ [store n (path.getD n 0)] := by
      simp [strncpySteps, List.range_succ]
    rw [hlast, List.foldl_append, ih, List.foldl_cons, List.foldl_nil, store]
    congr 1
    funext i
    by_cases hi : i = n
    · subst hi
      simp
    · have hlt : i < n + 1 ↔ i < n := by omega
      simp [Function.update_of_ne hi, hlt]

theorem exec_setSocket (path : CString) (c : Client) :
    (setSocket path).exec (.of c) = .of (c.call (.setSocket path)) := by
  rw [setSocket, Code.exec, Code.exec_steps, foldl_strncpySteps]
  simp only [Code.exec, store, Shared.of, Client.call, CArray.copy, Option.getD_some,
    CString.truncate_bytes, Shared.mk.injEq, and_true]
  funext i
  -- behind the 127 bytes there is a NUL, or what never was anything else
  by_cases hlast : i = 127
  · subst hlast
    rw [Function.update_self, List.getD_eq_default _ _ (List.length_take_le _ _)]
  · by_cases hi : i < 127
    · simp [Function.update_of_ne hlast, hi, List.getD_eq_getElem?_getD]
    · have hold : c.path.bytes.length ≤ i := by
        have := c.path.fits
        omega
      have hnew : (path.bytes.take 127).length ≤ i := by
        rw [List.length_take]
        omega
      simp only [Function.update_of_ne hlast, hi, if_false]
      rw [List.getD_eq_default _ _ hold, List.getD_eq_default _ _ hnew]

theorem exec_readPath (n i : Nat) (got : List UInt8) (k : List UInt8 → Code Shared) (c : Client) :
    (readPath n i got k).exec (.of c) =
      (k (got ++ (c.path.bytes.drop i).take n)).exec (.of c) := by
  induction n generalizing i got with
  | zero => simp [readPath]
  | succ n ih =>
    rw [readPath, Code.exec, id]
    by_cases hi : i < c.path.bytes.length
    · have hbyte : (Shared.of c).gSockPath i = c.path.bytes[i] := by
        simp [Shared.of, hi]
      have hnul : c.path.bytes[i] ≠ 0 := fun h => c.path.nulFree (h ▸ List.getElem_mem hi)
      rw [hbyte, if_neg hnul, ih, List.drop_eq_getElem_cons hi, List.take_succ_cons,
        List.append_assoc]
      rfl
    · have hend : (Shared.of c).gSockPath i = 0 := by
        have hlength : c.path.bytes.length ≤ i := by omega
        exact List.getD_eq_default _ _ hlength
      rw [if_pos hend, List.drop_eq_nil_of_le (by omega), List.take_nil, List.append_nil]

theorem exec_eviLcd (call : ClientCall) (c : Client) :
    (eviLcd call).exec (.of c) = .of (c.call call) := by
  cases call with
  | setSocket path => exact exec_setSocket path c
  | sendCmd cmd socket connect =>
    rw [eviLcd, sendCmd, Code.exec]
    cases socket with
    | false => simp [Code.exec, Client.call, Shared.of]
    | true =>
      simp only [Bool.not_true, Bool.false_eq_true, if_false]
      rw [exec_readPath]
      cases connect <;> simp [Code.exec, Client.call, Shared.of, emit]

theorem serial_eviLcd (calls : List ClientCall) :
    serial eviLcd (.of .initial) calls = .of (after calls) := by
  induction calls using List.reverseRecOn with
  | nil => rfl
  | append_singleton calls call ih =>
    rw [serial_snoc, ih, exec_eviLcd, after, after, List.foldl_append]
    rfl

end Sequential

section Locking

theorem inside_readPath (n i : Nat) (got : List UInt8) {k : List UInt8 → Code Shared}
    (h : ∀ path, (k path).Inside) : (readPath n i got k).Inside := by
  induction n generalizing i got with
  | zero => exact h got
  | succ n ih =>
    intro s
    change Code.Inside (if s.gSockPath i = 0 then _ else _)
    split_ifs
    · exact h got
    · exact ih _ _

theorem guarded_eviLcd (call : ClientCall) : (eviLcd call).Guarded := by
  cases call with
  | setSocket path => exact Code.inside_steps _ fun _ => rfl
  | sendCmd cmd socket connect =>
    cases socket with
    | false => rfl
    | true =>
      refine inside_readPath _ _ _ fun path s => ?_
      cases connect with
      | false => rfl
      | true => exact fun _ => rfl

def Grows (s s' : Shared) : Prop := s.log <+: s'.log

theorem along_readPath (n i : Nat) (got : List UInt8) {k : List UInt8 → Code Shared}
    (h : ∀ path, (k path).Along Grows) : (readPath n i got k).Along Grows := by
  induction n generalizing i got with
  | zero => exact h got
  | succ n ih =>
    intro s
    refine ⟨List.prefix_refl _, ?_⟩
    change Code.Along Grows (if s.gSockPath i = 0 then _ else _)
    split_ifs
    · exact h got
    · exact ih _ _

theorem along_eviLcd (call : ClientCall) : (eviLcd call).Along Grows := by
  have hunlock : (Code.unlock (S := Shared) .ret).Along Grows := trivial
  cases call with
  | setSocket path =>
    refine Code.along_steps ?_ fun _ => ⟨List.prefix_refl _, hunlock⟩
    intro f hf s
    obtain ⟨i, -, rfl⟩ := List.mem_map.mp hf
    exact List.prefix_refl _
  | sendCmd cmd socket connect =>
    cases socket with
    | false => exact hunlock
    | true =>
      refine along_readPath _ _ _ fun path s => ⟨List.prefix_append _ _, ?_⟩
      cases connect with
      | false => exact hunlock
      | true => exact fun s => ⟨List.prefix_append _ _, hunlock⟩

end Locking

/-- A path that somebody asked for, as far as an address holds it. -/
def Whole (calls : List ClientCall) (path : List UInt8) : Prop :=
  path = ascii "/var/run/evi-lcd.sock" ∨
    ∃ asked, .setSocket asked ∈ calls ∧ path = asked.bytes.take 107

/-- Each thread's calls take effect in its own order, a command and the path it goes to belong
together, and no path is a mixture of two. -/
structure Consistent {T : Type} [DecidableEq T] (program : T → List ClientCall)
    (s : State Shared ClientCall T) : Prop where
  order : ∀ t, s.callsOf t <+: program t
  between : s.owner = none → s.shared = .of (after s.calls)
  sofar : s.shared.log <+: (after s.calls).log
  whole : ∀ path, .connect path ∈ s.shared.log → Whole s.calls path

theorem path_after (calls : List ClientCall) : Whole calls ((after calls).path.bytes.take 107) := by
  induction calls using List.reverseRecOn with
  | nil => exact .inl (by decide)
  | append_singleton calls call ih =>
    have hstep : after (calls ++ [call]) = (after calls).call call := by
      rw [after, after, List.foldl_append]
      rfl
    rw [hstep]
    cases call with
    | setSocket path =>
      refine .inr ⟨path, by simp, ?_⟩
      simp [Client.call, CArray.copy, List.take_take]
    | sendCmd cmd socket connect =>
      rcases ih with hdefault | ⟨asked, hasked, hpath⟩
      · exact .inl hdefault
      · exact .inr ⟨asked, List.mem_append_left _ hasked, hpath⟩

theorem Whole.append {calls : List ClientCall} {path : List UInt8} (h : Whole calls path)
    (more : List ClientCall) : Whole (calls ++ more) path := by
  rcases h with hdefault | ⟨asked, hasked, hpath⟩
  · exact .inl hdefault
  · exact .inr ⟨asked, List.mem_append_left _ hasked, hpath⟩

theorem whole_after (calls : List ClientCall) :
    ∀ path, .connect path ∈ (after calls).log → Whole calls path := by
  induction calls using List.reverseRecOn with
  | nil => exact fun path h => by cases h
  | append_singleton calls call ih =>
    intro path h
    have hstep : after (calls ++ [call]) = (after calls).call call := by
      rw [after, after, List.foldl_append]
      rfl
    rw [hstep] at h
    cases call with
    | setSocket asked => exact (ih path h).append _
    | sendCmd cmd socket connect =>
      simp only [Client.call, List.mem_append] at h
      rcases h with hold | hnew
      · exact (ih path hold).append _
      · obtain rfl : path = (after calls).path.bytes.take 107 := by
          cases socket <;> cases connect <;> simp at hnew <;> exact hnew
        exact (path_after calls).append _

/-- However the threads are scheduled between two bytes of a path, the client sends what its calls
would send one after the other, and only to whole paths. -/
theorem threads_consistent {T : Type} [DecidableEq T] (program : T → List ClientCall)
    (schedule : List T) :
    Consistent program (run eviLcd (start (.of .initial) program) schedule) := by
  have h := serialised_run guarded_eviLcd (.of .initial) program schedule
  have hsofar : (run eviLcd (start (.of .initial) program) schedule).shared.log <+:
      (after (run eviLcd (start (.of .initial) program) schedule).calls).log := by
    have halong := along_serial (R := Grows) (fun _ => List.prefix_refl _) List.IsPrefix.trans
      along_eviLcd guarded_eviLcd (Shared.of .initial) program schedule
    rw [serial_eviLcd] at halong
    exact halong
  refine ⟨?_, ?_, hsofar, ?_⟩
  · intro t
    rw [← h.order t, List.append_assoc]
    exact List.prefix_append _ _
  · intro hfree
    exact (h.free hfree).trans (serial_eviLcd _)
  · intro path hpath
    exact whole_after _ path (hsofar.subset hpath)

end Evi7688.Lcdclient.SharedSocket
