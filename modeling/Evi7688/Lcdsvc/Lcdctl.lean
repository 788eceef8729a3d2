/- Evi7688/Lcdsvc/Lcdctl
   digest: The command line tool of the daemon: which request its arguments make, and what comes of it. -/

import Evi7688.Lcdclient.TwoWriters

set_option autoImplicit false
set_option relaxedAutoImplicit false

namespace Evi7688.Lcdsvc.Lcdctl

open Evi7688.Library.Bytes (ascii newline snprintf CString literal)
open Evi7688.Library.Delimited
open Evi7688.Library.Pieces (fill fill_of_length_le fill_two)
open Evi7688.Lcdclient.EviLcd (Channel requestLines)
open Evi7688.Lcdclient.PutText (named_put text_of_named_put)
open Evi7688.Lcdclient.TwoWriters (newline_notMem_dispatched)
open LcdHw
open Service

/-- The exit status, what is printed, and the daemon afterwards. -/
structure Outcome where
  status : Int
  stdout : List UInt8
  daemon : Session

/-- `send_cmd`; the daemon reads as in the client library. -/
def sendCmd (ch : Channel) (env : SysfsEnv) (cmd : List UInt8) (d : Session) : Outcome :=
  if !ch.socket then ⟨1, [], d⟩
  else if !ch.connect then ⟨1, [], d⟩
  else
    let d := handleClient env (fill 511 (cmd ++ [newline])) { d with replies := [] }
    ⟨0, (d.replies.take (1 + ch.moreReplies)).flatten.take 255, d⟩

/-- `strncat(buf, s, size - strlen(buf) - 1)`. -/
def strncat (size : Nat) (buf s : List UInt8) : List UInt8 := buf ++ s.take (size - buf.length - 1)

/-- The loop over the words of `put`: a blank follows every word but the last. -/
def joinWords : List CString → List UInt8 → List UInt8
  | [], buf => buf
  | [w], buf => strncat 512 buf w.bytes
  | w :: ws, buf => joinWords ws (strncat 512 (strncat 512 buf w.bytes) (ascii " "))

/-- The request for the arguments after the program's name; without one, the usage is printed. -/
def request : List CString → Option (List UInt8)
  | [] => none
  | command :: args =>
    if command.bytes = ascii "init" then some (ascii "INIT")
    else if command.bytes = ascii "clear" then some (ascii "CLEAR")
    else if command.bytes = ascii "home" then some (ascii "HOME")
    else
      match args with
      | [] => none
      | arg :: more =>
        if command.bytes = ascii "instr" then some (snprintf 32 (ascii "INSTR " ++ arg.bytes))
        else if command.bytes = ascii "ddram" then some (snprintf 32 (ascii "DDRAM " ++ arg.bytes))
        else if command.bytes = ascii "put" then some (joinWords (arg :: more) (ascii "PUT "))
        else none

def main (ch : Channel) (env : SysfsEnv) (argv : List CString) (d : Session) : Outcome :=
  match request argv with
  | none => ⟨1, [], d⟩
  | some cmd => sendCmd ch env cmd d

def joined (ws : List CString) : List UInt8 := (ascii " ").intercalate (ws.map CString.bytes)

/-- A text that fits one read of the daemon after a keyword that leaves `room`, in one line. -/
def OneLine (room : Nat) (text : List UInt8) : Prop := text.length ≤ room ∧ newline ∉ text

instance (room : Nat) (text : List UInt8) : Decidable (OneLine room text) :=
  inferInstanceAs (Decidable (_ ∧ _))

/-- The commands the arguments are understood to ask for: none after a mistake that is noticed, and
nothing definite for an argument that is cut or is more than one line. -/
def asked : List CString → Option (List Command)
  | [] => some []
  | command :: args =>
    if command.bytes = ascii "init" then some [.init]
    else if command.bytes = ascii "clear" then some [.clear]
    else if command.bytes = ascii "home" then some [.home]
    else
      match args with
      | [] => some []
      | arg :: more =>
        if command.bytes = ascii "instr" then
          if OneLine 25 arg.bytes then some ((parseHex arg.bytes).toList.map .instr) else none
        else if command.bytes = ascii "ddram" then
          if OneLine 25 arg.bytes then some ((parseHex arg.bytes).toList.map .ddram) else none
        else if command.bytes = ascii "put" then
          if OneLine 506 (joined (arg :: more)) then some [.put (joined (arg :: more))] else none
        else some []

section Words

theorem strncat_take (whole s : List UInt8) :
    strncat 512 (whole.take 511) s = (whole ++ s).take 511 := by
  rw [strncat, List.take_append]
  by_cases hlen : whole.length ≤ 511
  · rw [List.take_of_length_le hlen]
    congr 2
    omega
  · have hfull : (whole.take 511).length = 511 := by
      rw [List.length_take]
      omega
    rw [hfull, show 512 - 511 - 1 = 0 from rfl, show 511 - whole.length = 0 by omega]

theorem joinWords_eq {ws : List CString} (hne : ws ≠ []) (whole : List UInt8) :
    joinWords ws (whole.take 511) = (whole ++ joined ws).take 511 := by
  induction ws generalizing whole with
  | nil => exact absurd rfl hne
  | cons w ws ih =>
    cases ws with
    | nil => simp [joinWords, strncat_take, joined]
    | cons v ws =>
      have hstep : joinWords (w :: v :: ws) (whole.take 511) =
          joinWords (v :: ws)
            (strncat 512 (strncat 512 (whole.take 511) w.bytes) (ascii " ")) := rfl
      have hjoined : joined (w :: v :: ws) = w.bytes ++ ascii " " ++ joined (v :: ws) := by
        simp [joined]
      rw [hstep, strncat_take, strncat_take, ih (List.cons_ne_nil v ws), hjoined]
      simp only [List.append_assoc]

theorem nul_notMem_joined (ws : List CString) : (0 : UInt8) ∉ joined ws := by
  induction ws with
  | nil => simp [joined]
  | cons w ws ih =>
    cases ws with
    | nil => simpa [joined] using w.nulFree
    | cons v ws =>
      have hjoined : joined (w :: v :: ws) = w.bytes ++ ascii " " ++ joined (v :: ws) := by
        simp [joined]
      rw [hjoined, List.mem_append, List.mem_append, not_or, not_or]
      exact ⟨⟨w.nulFree, by decide⟩, ih⟩

theorem joinWords_put {ws : List CString} (hne : ws ≠ []) :
    joinWords ws (ascii "PUT ") = ascii "PUT " ++ (joined ws).take 507 := by
  have hwords := joinWords_eq hne (ascii "PUT ")
  have htake : (ascii "PUT " ++ joined ws).take 511 = ascii "PUT " ++ (joined ws).take 507 := by
    rw [List.take_append]
    rfl
  rw [htake] at hwords
  exact hwords

theorem request_put {ws : List CString} (hne : ws ≠ []) :
    request (literal "put" :: ws) = some (ascii "PUT " ++ (joined ws).take 507) := by
  obtain ⟨w, ws, rfl⟩ := List.exists_cons_of_ne_nil hne
  exact congrArg some (joinWords_put hne)

end Words

section Put

variable {ch : Channel} (env : SysfsEnv) (d : Session)

theorem sendCmd_of_up (hup : ch.up = true) (cmd : List UInt8) :
    (sendCmd ch env cmd d).status = 0 ∧
      (sendCmd ch env cmd d).daemon =
        (requestLines cmd).foldl (handleLine env) { d with replies := [] } := by
  obtain ⟨hsocket, hconnect⟩ : ch.socket = true ∧ ch.connect = true := by
    simpa [Channel.up] using hup
  simp only [sendCmd, hsocket, hconnect, Bool.not_true, Bool.false_eq_true, if_false,
    handleClient_eq, true_and]
  rfl

theorem executed_sendCmd (hup : ch.up = true) (cmd : List UInt8) :
    (sendCmd ch env cmd d).daemon.executed =
      d.executed ++ (requestLines cmd).filterMap named := by
  rw [(sendCmd_of_up env d hup cmd).2, executed_foldl]

theorem requestLines_line {line : List UInt8} (hnul : 0 ∉ line) (hnewline : newline ∉ line)
    (hlen : line.length ≤ 510) : requestLines line = [line] := by
  have hfill : fill 511 (line ++ [newline]) = [line ++ [newline]] := by
    apply fill_of_length_le (by simp)
    rw [List.length_append, List.length_singleton]
    omega
  rw [requestLines, hfill, dispatched, List.flatMap_singleton, bufferLines_line hnewline hnul]

/-- A line of 511 bytes fills the buffer of the daemon, which forgets it: only the newline after it
is left, an empty line. -/
theorem requestLines_full {line : List UInt8} (hnewline : newline ∉ line)
    (hlen : line.length = 511) : requestLines line = [[]] := by
  have hlong : (line ++ [newline]).length = 512 := by
    rw [List.length_append, hlen]
    rfl
  have hfill : fill 511 (line ++ [newline]) = [line, [newline]] := by
    rw [fill_two (by omega) (by omega), List.take_left' hlen, List.drop_left' hlen]
  rw [requestLines, hfill, dispatched, List.flatMap_cons, bufferLines_of_notMem hnewline]
  decide

theorem named_badHex_instr {arg : List UInt8} (h : parseHex arg = none) :
    named (ascii "INSTR " ++ arg) = none := by
  simp [named, dispatch, ascii, h, Except.toOption]

theorem named_badHex_ddram {arg : List UInt8} (h : parseHex arg = none) :
    named (ascii "DDRAM " ++ arg) = none := by
  simp [named, dispatch, ascii, h, Except.toOption]

theorem named_argument {keyword : List UInt8} {arg : CString} {make : UInt8 → Command}
    (hkeyword : keyword.length = 6 ∧ newline ∉ keyword ∧ 0 ∉ keyword)
    (reads : ∀ v, parseHex arg.bytes = some v → named (keyword ++ arg.bytes) = some (make v))
    (rejects : parseHex arg.bytes = none → named (keyword ++ arg.bytes) = none)
    (whole : OneLine 25 arg.bytes) :
    (requestLines (snprintf 32 (keyword ++ arg.bytes))).filterMap named =
      (parseHex arg.bytes).toList.map make := by
  obtain ⟨hlen, hnewline, hnul⟩ := hkeyword
  obtain ⟨hshort, hclean⟩ := whole
  have htotal : (keyword ++ arg.bytes).length ≤ 31 := by
    rw [List.length_append]
    omega
  have hformat : snprintf 32 (keyword ++ arg.bytes) = keyword ++ arg.bytes :=
    List.take_of_length_le htotal
  have hnul' : 0 ∉ keyword ++ arg.bytes := by
    rw [List.mem_append, not_or]
    exact ⟨hnul, arg.nulFree⟩
  have hclean' : newline ∉ keyword ++ arg.bytes := by
    rw [List.mem_append, not_or]
    exact ⟨hnewline, hclean⟩
  rw [hformat, requestLines_line hnul' hclean' (by omega), List.filterMap_cons]
  cases hv : parseHex arg.bytes with
  | none =>
    rw [rejects hv]
    rfl
  | some v =>
    rw [reads v hv]
    rfl

theorem named_joined {ws : List CString} (whole : OneLine 506 (joined ws)) :
    (requestLines (ascii "PUT " ++ (joined ws).take 507)).filterMap named =
      [.put (joined ws)] := by
  obtain ⟨hlen, hclean⟩ := whole
  have hkept : (joined ws).take 507 = joined ws := List.take_of_length_le (by omega)
  have hnul : (0 : UInt8) ∉ ascii "PUT " ++ joined ws := by
    rw [List.mem_append, not_or]
    exact ⟨by decide, nul_notMem_joined ws⟩
  have hline : newline ∉ ascii "PUT " ++ joined ws := by
    rw [List.mem_append, not_or]
    exact ⟨by decide, hclean⟩
  have hshort : (ascii "PUT " ++ joined ws).length ≤ 510 := by
    rw [List.length_append]
    exact Nat.add_le_add_left hlen 4
  rw [hkept, requestLines_line hnul hline hshort, List.filterMap_cons, named_put]
  rfl

theorem named_request {argv : List CString} {cs : List Command} (h : asked argv = some cs) :
    ((request argv).elim [] requestLines).filterMap named = cs := by
  rcases argv with _ | ⟨command, _ | ⟨arg, more⟩⟩
  · obtain rfl := Option.some.inj h
    rfl
  · simp only [asked] at h
    simp only [request]
    split_ifs at h ⊢ <;> obtain rfl := Option.some.inj h <;> decide
  · simp only [asked] at h
    simp only [request]
    split_ifs at h ⊢ with _ _ _ _ hwhole _ hwhole _ hwhole
    · obtain rfl := Option.some.inj h
      decide
    · obtain rfl := Option.some.inj h
      decide
    · obtain rfl := Option.some.inj h
      decide
    · obtain rfl := Option.some.inj h
      exact named_argument (by decide) (fun v hv => named_of_ok (dispatch_instr hv))
        named_badHex_instr hwhole
    · obtain rfl := Option.some.inj h
      exact named_argument (by decide) (fun v hv => named_of_ok (dispatch_ddram hv))
        named_badHex_ddram hwhole
    · obtain rfl := Option.some.inj h
      rw [joinWords_put (List.cons_ne_nil arg more)]
      exact named_joined hwhole
    · obtain rfl := Option.some.inj h
      rfl

/-- No executed text holds a newline, whatever was sent. -/
theorem newline_notMem_executed (cmd : List UInt8) {text : List UInt8}
    (h : .put text ∈ (requestLines cmd).filterMap named) : newline ∉ text := by
  obtain ⟨line, hline, hnamed⟩ := List.mem_filterMap.mp h
  have hclean : newline ∉ line := fun hmem =>
    newline_notMem_dispatched _ (List.mem_flatten.mpr ⟨line, hline, hmem⟩)
  rw [text_of_named_put hnamed]
  exact fun hmem => hclean (List.mem_of_mem_drop hmem)

/-- With the daemon up, `lcdctl put` reports success whatever its words; it has the daemon write
them, joined by blanks, exactly when they fit one read and hold no newline. -/
theorem put_executes_iff (hup : ch.up = true) {ws : List CString} (hne : ws ≠ []) :
    (main ch env (literal "put" :: ws) d).status = 0 ∧
      ((main ch env (literal "put" :: ws) d).daemon.executed =
          d.executed ++ [.put (joined ws)] ↔
        OneLine 506 (joined ws)) := by
  have hmain : main ch env (literal "put" :: ws) d =
      sendCmd ch env (ascii "PUT " ++ (joined ws).take 507) d := by
    rw [main, request_put hne]
  rw [hmain, executed_sendCmd env d hup, List.append_cancel_left_eq]
  refine ⟨(sendCmd_of_up env d hup _).1, ?_⟩
  constructor
  · intro h
    have hclean : newline ∉ joined ws := by
      apply newline_notMem_executed (ascii "PUT " ++ (joined ws).take 507)
      rw [h]
      exact List.mem_cons_self
    refine ⟨?_, hclean⟩
    by_contra hlong
    have hline : newline ∉ ascii "PUT " ++ (joined ws).take 507 := by
      rw [List.mem_append, not_or]
      exact ⟨by decide, fun hmem => hclean (List.mem_of_mem_take hmem)⟩
    have hlen : (ascii "PUT " ++ (joined ws).take 507).length = 511 := by
      rw [List.length_append, List.length_take, min_eq_left (by omega)]
      rfl
    rw [requestLines_full hline hlen] at h
    cases h
  · exact fun whole => named_joined whole

end Put

theorem put_executes_hello :
    (main ⟨true, true, 0⟩ openEnv [literal "put", literal "HELLO", literal "EVSE"]
      ⟨openHost, [], []⟩).daemon.executed = [.put (ascii "HELLO EVSE")] := by
  have hup : Channel.up ⟨true, true, 0⟩ = true := rfl
  have h := put_executes_iff openEnv ⟨openHost, [], []⟩ hup
    (List.cons_ne_nil (literal "HELLO") [literal "EVSE"])
  exact h.2.mpr (by decide)

end Evi7688.Lcdsvc.Lcdctl
