/- Evi7688/Lcdclient/EviLcd
   digest: The client library: one connection to the daemon for each request. -/

import Evi7688.Lcdsvc.Service

set_option autoImplicit false
set_option relaxedAutoImplicit false

namespace Evi7688.Lcdclient.EviLcd

open Evi7688.Library.Bytes (ascii newline snprintf CString)
open Evi7688.Library.Numerals (hexByte isHexDigit mem_hexByte scanHex_hexByte)
open Evi7688.Library.Delimited
open Evi7688.Library.Pieces (fill fill_of_length_le)
open Evi7688.Lcdsvc.LcdHw (SysfsEnv)
open Evi7688.Lcdsvc.Service

/-- How one request fares: the results of `socket` and `connect`, and how many replies besides the
first are there when the client reads. -/
structure Channel where
  socket : Bool
  connect : Bool
  moreReplies : Nat

def Channel.up (ch : Channel) : Bool := ch.socket && ch.connect

/-- `send_cmd` against the daemon. Each `recv` of the daemon is taken to find as many bytes as its
buffer takes, or all that are left of the request. -/
def sendCmd (ch : Channel) (env : SysfsEnv) (cmd : List UInt8) (d : Session) : Int × Session :=
  if !ch.socket then (-2, d)
  else if !ch.connect then (-3, d)
  else
    let d := handleClient env (fill 511 (cmd ++ [newline])) { d with replies := [] }
    let buf := (d.replies.take (1 + ch.moreReplies)).flatten.take 255
    if buf = [] then (-4, d) else (if ascii "OK" <+: buf then 0 else -5, d)

def eviLcdInit (ch : Channel) (env : SysfsEnv) : Session → Int × Session :=
  sendCmd ch env (ascii "INIT")

def eviLcdClear (ch : Channel) (env : SysfsEnv) : Session → Int × Session :=
  sendCmd ch env (ascii "CLEAR")

def eviLcdHome (ch : Channel) (env : SysfsEnv) : Session → Int × Session :=
  sendCmd ch env (ascii "HOME")

def eviLcdInstr (ch : Channel) (env : SysfsEnv) (v : UInt8) : Session → Int × Session :=
  sendCmd ch env (snprintf 32 (ascii "INSTR 0x" ++ hexByte v))

def eviLcdDdram (ch : Channel) (env : SysfsEnv) (addr : UInt8) : Session → Int × Session :=
  sendCmd ch env (snprintf 32 (ascii "DDRAM 0x" ++ hexByte addr))

def eviLcdPut (ch : Channel) (env : SysfsEnv) (s : Option CString) : Session → Int × Session :=
  sendCmd ch env (snprintf 600 (ascii "PUT " ++ (s.getD .empty).bytes))

def requestLines (cmd : List UInt8) : List (List UInt8) := dispatched (fill 511 (cmd ++ [newline]))

section Up

variable {ch : Channel} (env : SysfsEnv)

theorem sendCmd_up (hup : ch.up = true) {cmd line : List UInt8} {rest : List (List UInt8)}
    (hlines : requestLines cmd = line :: rest) (d : Session) :
    sendCmd ch env cmd d =
      (if named line ≠ none then 0 else -5,
        (line :: rest).foldl (handleLine env) { d with replies := [] }) := by
  simp only [Channel.up, Bool.and_eq_true] at hup
  obtain ⟨hsocket, hconnect⟩ := hup
  have hclient : handleClient env (fill 511 (cmd ++ [newline])) { d with replies := [] } =
      (line :: rest).foldl (handleLine env) { d with replies := [] } := by
    rw [handleClient_eq, ← hlines]
    rfl
  have hreplies : ((line :: rest).foldl (handleLine env) { d with replies := [] }).replies =
      replyTo line :: rest.map replyTo := by
    rw [replies_foldl]
    rfl
  have hbuf : ((replyTo line :: rest.map replyTo).take (1 + ch.moreReplies)).flatten =
      replyTo line ++ ((rest.map replyTo).take ch.moreReplies).flatten := by
    rw [Nat.add_comm, List.take_succ_cons, List.flatten_cons]
  have hne : (replyTo line ++ ((rest.map replyTo).take ch.moreReplies).flatten).take 255 ≠ [] := by
    have hreply := replyTo_ne_nil line
    simp [hreply]
  simp only [sendCmd, hsocket, hconnect, hclient, hreplies, hbuf, if_neg hne, Bool.not_true,
    Bool.false_eq_true, if_false, ok_prefix_replyTo]

theorem sendCmd_down (hdown : ch.up = false) (cmd : List UInt8) (d : Session) :
    (sendCmd ch env cmd d).1 ≠ 0 := by
  simp only [Channel.up, Bool.and_eq_false_iff] at hdown
  rcases hdown with hsocket | hconnect
  · simp [sendCmd, hsocket]
  · cases hsocket : ch.socket <;> simp [sendCmd, hsocket, hconnect]

theorem sendCmd_line (hup : ch.up = true) {line : List UInt8} {c : Command}
    (hnul : 0 ∉ line) (hnewline : newline ∉ line) (hlen : line.length ≤ 510)
    (hdispatch : dispatch line = .ok c) (d : Session) :
    sendCmd ch env line d = (0, ⟨runCommand env c d.host, [okReply], d.executed ++ [c]⟩) := by
  have hfill : fill 511 (line ++ [newline]) = [line ++ [newline]] := by
    apply fill_of_length_le (by simp)
    rw [List.length_append, List.length_singleton]
    omega
  have hlines : requestLines line = [line] := by
    rw [requestLines, hfill, dispatched, List.flatMap_singleton, bufferLines_line hnewline hnul]
  have hnamed : named line ≠ none := by
    simp [named_of_ok hdispatch]
  rw [sendCmd_up env hup hlines, if_pos hnamed, List.foldl_cons, List.foldl_nil,
    handleLine_of_ok env _ hdispatch]
  rfl

theorem notMem_hexByte {b : UInt8} {keyword : List UInt8} (hkeyword : b ∉ keyword)
    (hdigit : isHexDigit b = false) (v : UInt8) : b ∉ keyword ++ hexByte v := by
  rw [List.mem_append, not_or]
  refine ⟨hkeyword, fun hb => ?_⟩
  rw [mem_hexByte v b hb] at hdigit
  cases hdigit

theorem parseHex_hexByte (v : UInt8) : parseHex (ascii "0x" ++ hexByte v) = some v := by
  rw [parseHex, scanHex_hexByte]
  simp

theorem dispatch_instr_hexByte (v : UInt8) :
    dispatch (ascii "INSTR 0x" ++ hexByte v) = .ok (.instr v) :=
  dispatch_instr (parseHex_hexByte v)

theorem dispatch_ddram_hexByte (addr : UInt8) :
    dispatch (ascii "DDRAM 0x" ++ hexByte addr) = .ok (.ddram addr) :=
  dispatch_ddram (parseHex_hexByte addr)

end Up

/-- The calls of the library with no text in them, and the command each stands for. -/
inductive PlainCall
  | init | clear | home
  | instr (v : UInt8)
  | ddram (addr : UInt8)

def PlainCall.run (ch : Channel) (env : SysfsEnv) : PlainCall → Session → Int × Session
  | .init => eviLcdInit ch env
  | .clear => eviLcdClear ch env
  | .home => eviLcdHome ch env
  | .instr v => eviLcdInstr ch env v
  | .ddram addr => eviLcdDdram ch env addr

def PlainCall.command : PlainCall → Command
  | .init => .init
  | .clear => .clear
  | .home => .home
  | .instr v => .instr v
  | .ddram addr => .ddram addr

theorem plainCall_run {ch : Channel} (hup : ch.up = true) (env : SysfsEnv) (call : PlainCall)
    (d : Session) :
    call.run ch env d =
      (0, ⟨runCommand env call.command d.host, [okReply], d.executed ++ [call.command]⟩) := by
  cases call with
  | init => exact sendCmd_line env hup (by decide) (by decide) (by decide) rfl d
  | clear => exact sendCmd_line env hup (by decide) (by decide) (by decide) rfl d
  | home => exact sendCmd_line env hup (by decide) (by decide) (by decide) rfl d
  | instr v =>
    have hnul : 0 ∉ ascii "INSTR 0x" ++ hexByte v := notMem_hexByte (by decide) rfl v
    have hnewline : newline ∉ ascii "INSTR 0x" ++ hexByte v := notMem_hexByte (by decide) rfl v
    have hlen : (ascii "INSTR 0x" ++ hexByte v).length ≤ 510 := by
      simp [hexByte, ascii]
    exact sendCmd_line env hup hnul hnewline hlen (dispatch_instr_hexByte v) d
  | ddram addr =>
    have hnul : 0 ∉ ascii "DDRAM 0x" ++ hexByte addr := notMem_hexByte (by decide) rfl addr
    have hnewline : newline ∉ ascii "DDRAM 0x" ++ hexByte addr :=
      notMem_hexByte (by decide) rfl addr
    have hlen : (ascii "DDRAM 0x" ++ hexByte addr).length ≤ 510 := by
      simp [hexByte, ascii]
    exact sendCmd_line env hup hnul hnewline hlen (dispatch_ddram_hexByte addr) d

end Evi7688.Lcdclient.EviLcd
