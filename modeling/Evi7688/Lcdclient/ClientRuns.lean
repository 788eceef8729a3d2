/- Evi7688/Lcdclient/ClientRuns
   digest: Any sequence of library calls and tool invocations, and what the panel shows after it. -/

import Evi7688.Lcdsvc.Display
import Evi7688.Lcdsvc.Lcdctl

set_option autoImplicit false
set_option relaxedAutoImplicit false

namespace Evi7688.Lcdclient.ClientRuns

open Evi7688.Library.Bytes (ascii newline snprintf CString literal)
open Evi7688.Library.Delimited
open Evi7688.Library.Numerals (hexByte)
open Evi7688.Library.CharacterPicture (Picture)
open Evi7688.Lcdsvc
open Evi7688.Lcdsvc.LcdHw (SysfsEnv Line openEnv)
open Evi7688.Lcdsvc.Service
open Evi7688.Lcdsvc.OpenHandles (started)
open Evi7688.Lcdsvc.PanelCursor (SysfsSound openEnv_sound)
open Evi7688.Lcdsvc.Display
open EviLcd
open PutText (named_put requestLines_short newline_notMem_put)
open TwoWriters (Deliverable sendCmd_of_up)

/-- `evi_lcd_printf`, from the formatted text on. -/
def eviLcdPrintf (ch : Channel) (env : SysfsEnv) (formatted : CString) :
    Session → Int × Session :=
  sendCmd ch env (snprintf 600 (ascii "PUT " ++ snprintf 512 formatted.bytes))

/-- What a program asks of the library. -/
inductive Call
  | plain (call : PlainCall)
  | put (s : Option CString)
  | printf (formatted : CString)

def Call.run (ch : Channel) (env : SysfsEnv) : Call → Session → Int × Session
  | .plain call => call.run ch env
  | .put s => eviLcdPut ch env s
  | .printf formatted => eviLcdPrintf ch env formatted

/-- The commands a call is understood to ask for: none in particular for a text that does not fit
one read of the daemon or is more than one line. -/
def Call.asked : Call → Option (List Command)
  | .plain call => some [call.command]
  | .put s =>
    if Deliverable (s.getD .empty) then some [.put (s.getD .empty).bytes] else none
  | .printf formatted => if Deliverable formatted then some [.put formatted.bytes] else none

/-- One program asks the daemon for something: by a call, or by running the tool. -/
inductive Request
  | library (call : Call)
  | lcdctl (argv : List CString)

/-- Whether the program is told that it was done, and the daemon afterwards. -/
def Request.run (ch : Channel) (env : SysfsEnv) (d : Session) : Request → Bool × Session
  | .library call => ((call.run ch env d).1 == 0, (call.run ch env d).2)
  | .lcdctl argv => ((Lcdctl.main ch env argv d).status == 0, (Lcdctl.main ch env argv d).daemon)

def Request.asked : Request → Option (List Command)
  | .library call => call.asked
  | .lcdctl argv => Lcdctl.asked argv

/-- The requests of all programs in the order in which the daemon accepts their connections. -/
def serveAll (env : SysfsEnv) (requests : List (Channel × Request)) : Session :=
  requests.foldl (fun d r => (r.2.run r.1 env d).2) ⟨started env, [], []⟩

/-- What a request means for what is shown; one that does not reach the daemon means nothing. -/
def means (beside : Bool → Fin 128 → Fin 128) (o : Option Picture) (r : Channel × Request) :
    Option Picture :=
  if r.1.up then r.2.asked.bind fun cs => cs.foldl (shows beside) o else o

section Sending

variable {ch : Channel} (env : SysfsEnv)

/-- What is sent for a call. -/
def Call.sent : Call → List UInt8
  | .plain .init => ascii "INIT"
  | .plain .clear => ascii "CLEAR"
  | .plain .home => ascii "HOME"
  | .plain (.instr v) => snprintf 32 (ascii "INSTR 0x" ++ hexByte v)
  | .plain (.ddram addr) => snprintf 32 (ascii "DDRAM 0x" ++ hexByte addr)
  | .put s => snprintf 600 (ascii "PUT " ++ (s.getD .empty).bytes)
  | .printf formatted => snprintf 600 (ascii "PUT " ++ snprintf 512 formatted.bytes)

theorem Call.run_eq (call : Call) : call.run ch env = sendCmd ch env call.sent := by
  cases call with
  | plain call => cases call <;> rfl
  | put s => rfl
  | printf formatted => rfl

theorem sendCmd_of_down (hdown : ch.up = false) (cmd : List UInt8) (d : Session) :
    (sendCmd ch env cmd d).2 = d := by
  simp only [Channel.up, Bool.and_eq_false_iff] at hdown
  rcases hdown with hsocket | hconnect
  · simp [sendCmd, hsocket]
  · cases hsocket : ch.socket <;> simp [sendCmd, hsocket, hconnect]

theorem lcdctl_of_down (hdown : ch.up = false) (argv : List CString) (d : Session) :
    (Lcdctl.main ch env argv d).daemon = d := by
  simp only [Channel.up, Bool.and_eq_false_iff] at hdown
  rw [Lcdctl.main]
  cases Lcdctl.request argv with
  | none => rfl
  | some cmd =>
    rcases hdown with hsocket | hconnect
    · simp [Lcdctl.sendCmd, hsocket]
    · cases hsocket : ch.socket <;> simp [Lcdctl.sendCmd, hsocket, hconnect]

theorem lines_deliverable {s : CString} (h : Deliverable s) :
    requestLines (snprintf 600 (ascii "PUT " ++ s.bytes)) = [ascii "PUT " ++ s.bytes] := by
  rw [requestLines_short h.1, records_record _ (newline_notMem_put h.2)]
  rfl

theorem lines_hexByte {keyword : List UInt8}
    (hkeyword : keyword.length = 8 ∧ newline ∉ keyword ∧ 0 ∉ keyword) (v : UInt8) :
    requestLines (snprintf 32 (keyword ++ hexByte v)) = [keyword ++ hexByte v] := by
  obtain ⟨hlen, hnewline, hnul⟩ := hkeyword
  have htotal : (keyword ++ hexByte v).length = 10 := by
    rw [List.length_append, hlen]
    rfl
  have hformat : snprintf 32 (keyword ++ hexByte v) = keyword ++ hexByte v :=
    List.take_of_length_le (by omega)
  rw [hformat]
  exact Lcdctl.requestLines_line (notMem_hexByte hnul rfl v) (notMem_hexByte hnewline rfl v)
    (by omega)

theorem Call.lines_sent {call : Call} {cs : List Command} (h : call.asked = some cs) :
    ∃ line c, requestLines call.sent = [line] ∧ named line = some c ∧ cs = [c] := by
  cases call with
  | plain call =>
    obtain rfl := Option.some.inj h
    cases call with
    | init => exact ⟨ascii "INIT", .init, by decide, by decide, rfl⟩
    | clear => exact ⟨ascii "CLEAR", .clear, by decide, by decide, rfl⟩
    | home => exact ⟨ascii "HOME", .home, by decide, by decide, rfl⟩
    | instr v =>
      exact ⟨_, .instr v, lines_hexByte (by decide) v, named_of_ok (dispatch_instr_hexByte v), rfl⟩
    | ddram addr =>
      exact ⟨_, .ddram addr, lines_hexByte (by decide) addr,
        named_of_ok (dispatch_ddram_hexByte addr), rfl⟩
  | put s =>
    simp only [Call.asked] at h
    split_ifs at h with hdeliverable
    obtain rfl := Option.some.inj h
    exact ⟨_, _, lines_deliverable hdeliverable, named_put _, rfl⟩
  | printf formatted =>
    simp only [Call.asked] at h
    split_ifs at h with hdeliverable
    obtain rfl := Option.some.inj h
    have hkept : snprintf 512 formatted.bytes = formatted.bytes :=
      List.take_of_length_le (hdeliverable.1.trans (by decide))
    rw [Call.sent, hkept]
    exact ⟨_, _, lines_deliverable hdeliverable, named_put _, rfl⟩

theorem Call.named_sent {call : Call} {cs : List Command} (h : call.asked = some cs) :
    (requestLines call.sent).filterMap named = cs := by
  obtain ⟨line, c, hlines, hnamed, rfl⟩ := call.lines_sent h
  rw [hlines, List.filterMap_cons, hnamed]
  rfl

/-- A program that asks for something definite is told that it was done exactly when its request
reaches the daemon. -/
theorem Request.told {r : Request} {c : Command} {cs : List Command}
    (h : r.asked = some (c :: cs)) (d : Session) : (r.run ch env d).1 = ch.up := by
  cases r with
  | library call =>
    rw [Request.run, call.run_eq]
    cases hup : ch.up with
    | true =>
      obtain ⟨line, c', hlines, hnamed, -⟩ := call.lines_sent h
      rw [sendCmd_up env hup hlines, if_pos (by simp [hnamed])]
      rfl
    | false =>
      have hfailed := sendCmd_down env hup call.sent d
      simpa using hfailed
  | lcdctl argv =>
    have hnamed := Lcdctl.named_request h
    cases hrequest : Lcdctl.request argv with
    | none =>
      rw [hrequest] at hnamed
      cases hnamed
    | some cmd =>
      rw [Request.run, Lcdctl.main, hrequest]
      cases hup : ch.up with
      | true =>
        have hstatus := (Lcdctl.sendCmd_of_up env d hup cmd).1
        simp [hstatus]
      | false =>
        simp only [Channel.up, Bool.and_eq_false_iff] at hup
        rcases hup with hsocket | hconnect
        · simp [Lcdctl.sendCmd, hsocket]
        · cases hsocket : ch.socket <;> simp [Lcdctl.sendCmd, hsocket, hconnect]

theorem Request.handled (hup : ch.up = true) (r : Request) (d : Session) :
    ∃ (lines : List (List UInt8)) (replies : List (List UInt8)),
      (∀ cs, r.asked = some cs → lines.filterMap named = cs) ∧
        (r.run ch env d).2 = lines.foldl (handleLine env) { d with replies := replies } := by
  cases r with
  | library call =>
    refine ⟨requestLines call.sent, [], fun cs h => call.named_sent h, ?_⟩
    rw [Request.run, call.run_eq]
    exact sendCmd_of_up hup call.sent
  | lcdctl argv =>
    cases hrequest : Lcdctl.request argv with
    | none =>
      refine ⟨[], d.replies, fun cs h => ?_, ?_⟩
      · have hnamed := Lcdctl.named_request h
        rw [hrequest] at hnamed
        exact hnamed
      · simp [Request.run, Lcdctl.main, hrequest]
    | some cmd =>
      refine ⟨requestLines cmd, [], fun cs h => ?_, ?_⟩
      · have hnamed := Lcdctl.named_request h
        rw [hrequest] at hnamed
        exact hnamed
      · rw [Request.run, Lcdctl.main, hrequest]
        exact (Lcdctl.sendCmd_of_up env d hup cmd).2

theorem Request.unheard (hdown : ch.up = false) (r : Request) (d : Session) :
    (r.run ch env d).2 = d := by
  cases r with
  | library call =>
    rw [Request.run, call.run_eq]
    exact sendCmd_of_down env hdown call.sent d
  | lcdctl argv => exact lcdctl_of_down env hdown argv d

end Sending

section Runs

variable {env : SysfsEnv} {beside : Bool → Fin 128 → Fin 128} {start : Picture} {b : Board}
  (sound : SysfsSound env)

include sound

theorem serving_request {d : Session} {o : Option Picture}
    (serving : Serving beside start b d.host o) (r : Channel × Request) :
    Serving beside start b (r.2.run r.1 env d).2.host (means beside o r) := by
  obtain ⟨ch, r⟩ := r
  cases hup : ch.up with
  | false =>
    have hsame := Request.unheard env hup r d
    simpa [means, hup, hsame] using serving
  | true =>
    obtain ⟨lines, replies, hnamed, hrun⟩ := Request.handled env hup r d
    have hlines := serving.lines sound lines (d := { d with replies := replies })
    rw [hrun, means, if_pos hup]
    cases hasked : r.asked with
    | none => exact ⟨hlines.working, hlines.begins, fun p hp => by cases hp⟩
    | some cs =>
      rw [hnamed cs hasked] at hlines
      exact hlines

/-- Whatever any programs ask for in any order, whichever of their requests reach the daemon and
whatever the panel was left with, it shows what those requests mean. -/
theorem displays_run (beside : Bool → Fin 128 → Fin 128) (start : Picture) (b : Board)
    (requests : List (Channel × Request)) :
    Shown beside start (b.controller (serveAll env requests).host)
      (requests.foldl (means beside) (some .fresh)) := by
  suffices ∀ {d : Session} {o : Option Picture}, Serving beside start b d.host o →
      Serving beside start b (requests.foldl (fun d r => (r.2.run r.1 env d).2) d).host
        (requests.foldl (means beside) o) from (this (serving_started sound)).shown
  intro d o serving
  induction requests generalizing d o with
  | nil => exact serving
  | cons r requests ih => exact ih (serving_request sound serving r)

end Runs

/-- A call that does not reach the daemon between two that do, and the tool after them. -/
theorem displays_hello :
    Shown (fun _ i => i + 1) .fresh
      (Board.controller ⟨[⟨false, 0x28⟩], fun _ => true⟩ (serveAll openEnv
        [(⟨true, true, 0⟩, .library (.plain (.ddram 0x40))),
          (⟨true, false, 0⟩, .library (.plain .clear)),
          (⟨true, true, 0⟩, .library (.printf (literal "OK"))),
          (⟨true, true, 0⟩, .lcdctl [literal "instr", literal "0x08"])]).host)
      (some ⟨false, true, false, 0, some 0x42,
        Function.update (Function.update (fun _ => 0x20) 0x40 0x4F) 0x41 0x4B⟩) :=
  displays_run openEnv_sound (fun _ i => i + 1) .fresh ⟨[⟨false, 0x28⟩], fun _ => true⟩ _

end Evi7688.Lcdclient.ClientRuns
