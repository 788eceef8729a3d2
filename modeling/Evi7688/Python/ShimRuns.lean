/- Evi7688/Python/ShimRuns
   digest: Any sequence of displayCaptionFunc calls over the socket, and what the panel shows after it. -/

import Evi7688.Python.DisplayCaptionFunc
import Evi7688.Lcdsvc.Display
import Evi7688.Lcdsvc.Lcdctl
import Evi7688.Libevi.InfoRows

set_option autoImplicit false
set_option relaxedAutoImplicit false

namespace Evi7688.Python.ShimRuns

open Evi7688.Library.Bytes (ascii newline)
open Evi7688.Library.CharacterPicture (Picture)
open Evi7688.Library.Numerals (hexByte isHexDigit mem_hexByte)
open Evi7688.Library.Pieces (fill delivers_fill length_le_of_mem_fillLoop)
open Evi7688.Library.PyText
open Evi7688.Lcdsvc
open Evi7688.Lcdsvc.LcdHw (SysfsEnv openEnv)
open Evi7688.Lcdsvc.Service
open Evi7688.Lcdsvc.OpenHandles (started)
open Evi7688.Lcdsvc.PanelCursor (SysfsSound openEnv_sound)
open Evi7688.Lcdsvc.Display
open Evi7688.Lcdclient.EviLcd (requestLines notMem_hexByte dispatch_instr_hexByte
  dispatch_ddram_hexByte)
open Evi7688.Lcdclient.PutText (named_put newline_notMem_put)
open Evi7688.Libevi.InfoRows (ddramAddr)
open DisplayCaptionFunc

/-- The text of the one request a call makes, unless an argument raises before. -/
def request : ShimCall → Option PyStr
  | .writeInstructions val => (lowByte val).map fun v => ofAscii (ascii "INSTR 0x" ++ hexByte v)
  | .writeLetters wordStr => wordStr.text.map fun s => ofAscii (ascii "PUT ") ++ s
  | .lcdClr => some (ofAscii (ascii "CLEAR"))
  | .setDdram addr => (lowByte addr).map fun a => ofAscii (ascii "DDRAM 0x" ++ hexByte a)

/-- A text that is one line of the daemon and fits one of its reads. -/
def OneLine (s : PyStr) : Prop :=
  (encodeIgnore s).length ≤ 506 ∧ newline ∉ encodeIgnore s ∧ 0 ∉ encodeIgnore s

instance (s : PyStr) : Decidable (OneLine s) := inferInstanceAs (Decidable (_ ∧ _))

/-- The commands a call is understood to ask for: none in particular for other texts. -/
def asked : ShimCall → Option (List Command)
  | .writeInstructions val => some ((lowByte val).map Command.instr).toList
  | .writeLetters wordStr =>
    match wordStr.text with
    | none => some []
    | some s => if OneLine s then some [.put (encodeIgnore s)] else none
  | .lcdClr => some [.clear]
  | .setDdram addr => some ((lowByte addr).map Command.ddram).toList

/-- What a call means for what is shown; one that does not reach the daemon means nothing. -/
def means (beside : Bool → Fin 128 → Fin 128) (o : Option Picture) (step : Step) :
    Option Picture :=
  if step.transport.up then (asked step.call).bind fun cs => cs.foldl (shows beside) o else o

section Request

theorem call_request (env : SysfsEnv) (t : Transport) (call : ShimCall) (w : World) :
    ∃ w₀ : World, w₀.daemon = w.daemon ∧
      (call.run env t none w).2 =
        match request call with
        | none => w₀
        | some cmd => (send env t cmd w₀).2 := by
  cases call with
  | writeInstructions val =>
    refine ⟨{ w with inited := true }, rfl, ?_⟩
    simp only [ShimCall.run, writeInstructions, ensureInit_none, request]
    cases lowByte val <;> rfl
  | writeLetters wordStr =>
    refine ⟨{ w with inited := true }, rfl, ?_⟩
    simp only [ShimCall.run, writeLetters, ensureInit_none, request]
    cases wordStr.text <;> rfl
  | lcdClr =>
    refine ⟨{ w with inited := true }, rfl, ?_⟩
    simp only [ShimCall.run, lcdClr, ensureInit_none, request]
    rfl
  | setDdram addr =>
    refine ⟨w, rfl, ?_⟩
    simp only [ShimCall.run, setDdram, request]
    cases lowByte addr <;> rfl

theorem encodeIgnore_append (s s' : PyStr) :
    encodeIgnore (s ++ s') = encodeIgnore s ++ encodeIgnore s' := List.flatMap_append

theorem ne_newline_getLast {cmd : PyStr} (h : newline ∉ encodeIgnore cmd) :
    cmd.getLast? ≠ some (.scalar '\n') := by
  intro hlast
  have hmem : CodePoint.scalar '\n' ∈ cmd := List.mem_of_getLast? hlast
  exact h (List.mem_flatMap.mpr ⟨_, hmem, by decide⟩)

theorem send_whole (env : SysfsEnv) {t : Transport} (up : t.up = true) (whole : t.cut = fill 511)
    {cmd : PyStr} (hcmd : newline ∉ encodeIgnore cmd) (w : World) :
    (send env t cmd w).2.daemon =
      (requestLines (encodeIgnore cmd)).foldl (handleLine env) { w.daemon with replies := [] } := by
  have hterminated : encodeIgnore (cmd ++ [.scalar '\n']) = encodeIgnore cmd ++ [newline] := by
    rw [encodeIgnore_append]
    rfl
  simp only [send, up, whole, Bool.not_true, Bool.false_eq_true, if_false,
    if_neg (ne_newline_getLast hcmd), hterminated, handleClient_eq]
  rfl

theorem isHexDigit_lt {b : UInt8} (h : isHexDigit b = true) : b < 0x80 := by
  have table : ∀ n : Fin 256, isHexDigit (UInt8.ofNat n.val) = true →
      UInt8.ofNat n.val < 0x80 := by decide +kernel
  simpa using table ⟨b.toNat, b.toNat_lt⟩ (by simpa using h)

theorem ascii_hexByte {keyword : List UInt8} (hkeyword : ∀ b ∈ keyword, b < 0x80) (v : UInt8) :
    encodeIgnore (ofAscii (keyword ++ hexByte v)) = keyword ++ hexByte v := by
  apply encodeIgnore_ofAscii
  intro b hb
  rcases List.mem_append.mp hb with hkey | hdigit
  · exact hkeyword b hkey
  · exact isHexDigit_lt (mem_hexByte v b hdigit)

theorem lines_hexByte {keyword : List UInt8} (hascii : ∀ b ∈ keyword, b < 0x80)
    (hkeyword : keyword.length = 8 ∧ newline ∉ keyword ∧ 0 ∉ keyword) (v : UInt8) {c : Command}
    (hnamed : named (keyword ++ hexByte v) = some c) :
    newline ∉ encodeIgnore (ofAscii (keyword ++ hexByte v)) ∧
      (requestLines (encodeIgnore (ofAscii (keyword ++ hexByte v)))).filterMap named = [c] := by
  obtain ⟨hlen, hnewline, hnul⟩ := hkeyword
  have htotal : (keyword ++ hexByte v).length = 10 := by
    rw [List.length_append, hlen]
    rfl
  have hline := notMem_hexByte hnewline rfl v
  rw [ascii_hexByte hascii v, Lcdctl.requestLines_line (notMem_hexByte hnul rfl v) hline (by omega)]
  refine ⟨hline, ?_⟩
  rw [List.filterMap_cons, hnamed]
  rfl

theorem lines_letters {s : PyStr} (h : OneLine s) :
    newline ∉ encodeIgnore (ofAscii (ascii "PUT ") ++ s) ∧
      (requestLines (encodeIgnore (ofAscii (ascii "PUT ") ++ s))).filterMap named =
        [.put (encodeIgnore s)] := by
  obtain ⟨hlen, hnewline, hnul⟩ := h
  have hput : encodeIgnore (ofAscii (ascii "PUT ")) = ascii "PUT " :=
    encodeIgnore_ofAscii (by decide +kernel)
  have htotal : (ascii "PUT " ++ encodeIgnore s).length ≤ 510 := by
    rw [List.length_append]
    have hkeyword : (ascii "PUT ").length = 4 := rfl
    omega
  have hline := newline_notMem_put hnewline
  have hplain : 0 ∉ ascii "PUT " ++ encodeIgnore s := by
    rw [List.mem_append, not_or]
    exact ⟨by decide, hnul⟩
  rw [encodeIgnore_append, hput, Lcdctl.requestLines_line hplain hline htotal]
  refine ⟨hline, ?_⟩
  rw [List.filterMap_cons, named_put]
  rfl

theorem lines_request {call : ShimCall} {cs : List Command} (h : asked call = some cs) :
    match request call with
    | none => cs = []
    | some cmd => newline ∉ encodeIgnore cmd ∧
        (requestLines (encodeIgnore cmd)).filterMap named = cs := by
  cases call with
  | writeInstructions val =>
    obtain rfl := Option.some.inj h
    cases hval : lowByte val with
    | none => simp [request, hval]
    | some v =>
      simpa [request, hval] using lines_hexByte (by decide +kernel) (by decide) v
        (named_of_ok (dispatch_instr_hexByte v))
  | writeLetters wordStr =>
    cases htext : wordStr.text with
    | none =>
      simp only [asked, htext, Option.some.injEq] at h
      simp [request, htext, h]
    | some s =>
      simp only [asked, htext] at h
      split_ifs at h with hline
      obtain rfl := Option.some.inj h
      simpa [request, htext] using lines_letters hline
  | lcdClr =>
    obtain rfl := Option.some.inj h
    exact ⟨by decide, by decide⟩
  | setDdram addr =>
    obtain rfl := Option.some.inj h
    cases haddr : lowByte addr with
    | none => simp [request, haddr]
    | some a =>
      simpa [request, haddr] using lines_hexByte (by decide +kernel) (by decide) a
        (named_of_ok (dispatch_ddram_hexByte a))

end Request

section Runs

variable {env : SysfsEnv} {beside : Bool → Fin 128 → Fin 128} {start : Picture} {b : Board}
  (sound : SysfsSound env)

include sound

theorem serving_request {w : World} {o : Option Picture}
    (serving : Serving beside start b w.daemon.host o) (t : Transport) (cmd : Option PyStr) :
    ∃ o', Serving beside start b
      (match cmd with
        | none => w
        | some cmd => (send env t cmd w).2).daemon.host o' := by
  cases cmd with
  | none => exact ⟨o, serving⟩
  | some cmd =>
    rcases send_snd env t cmd w with hsame | ⟨pieces, hsent⟩
    · exact ⟨o, by simpa [hsame] using serving⟩
    · refine ⟨((dispatched pieces).filterMap named).foldl (shows beside) o, ?_⟩
      have hlines := serving.lines sound (dispatched pieces) (d := { w.daemon with replies := [] })
      rw [← handleClient_eq] at hlines
      simpa [hsent] using hlines

theorem serving_call {w : World} {o : Option Picture}
    (serving : Serving beside start b w.daemon.host o) {step : Step}
    (whole : step.transport.cut = fill 511) :
    Serving beside start b (step.call.run env step.transport none w).2.daemon.host
      (means beside o step) := by
  obtain ⟨w₀, hdaemon, hrun⟩ := call_request env step.transport step.call w
  rw [← hdaemon] at serving
  rw [hrun]
  unfold means
  cases hup : step.transport.up with
  | false =>
    cases hrequest : request step.call with
    | none => simpa using serving
    | some cmd => simpa [send, hup] using serving
  | true =>
    cases hasked : asked step.call with
    | none =>
      -- The lines of such a text may be any commands.
      obtain ⟨o', hserving⟩ := serving_request sound serving step.transport (request step.call)
      exact ⟨hserving.working, hserving.begins, fun p hp => by cases hp⟩
    | some cs =>
      have hlines := lines_request hasked
      cases hrequest : request step.call with
      | none =>
        rw [hrequest] at hlines
        obtain rfl : cs = [] := hlines
        simpa using serving
      | some cmd =>
        rw [hrequest] at hlines
        obtain ⟨hline, hnamed⟩ := hlines
        have hserving := serving.lines sound (requestLines (encodeIgnore cmd))
          (d := { w₀.daemon with replies := [] })
        rw [hnamed] at hserving
        simpa [send_whole env hup whole hline] using hserving

/-- Whatever a program does through the shim, whichever of its calls raise or do not reach the
daemon and whatever the panel was left with: it shows what the others mean. -/
theorem displays_calls (beside : Bool → Fin 128 → Fin 128) (start : Picture) (b : Board)
    (steps : List Step) (whole : ∀ step ∈ steps, step.transport.cut = fill 511) :
    Shown beside start
      (b.controller (finish env none (.fresh ⟨started env, [], []⟩) steps).daemon.host)
      (steps.foldl (means beside) (some .fresh)) := by
  suffices ∀ {w : World} {o : Option Picture}, Serving beside start b w.daemon.host o →
      Serving beside start b (finish env none w steps).daemon.host
        (steps.foldl (means beside) o) from (this (serving_started sound)).shown
  intro w o serving
  induction steps generalizing w o with
  | nil => exact serving
  | cons step steps ih =>
    exact ih (fun s hs => whole s (List.mem_cons_of_mem _ hs))
      (serving_call sound serving (whole step List.mem_cons_self))

end Runs

theorem reads_fill (stream : List UInt8) : Reads (fill 511 stream) stream :=
  ⟨delivers_fill (by decide) stream, length_le_of_mem_fillLoop⟩

def wholeReads : Transport where
  up := true
  cut := fill 511
  reads := reads_fill
  moreReplies := 0

/-- A program places a letter on the second row, and a call in between raises. -/
theorem displays_second_row :
    Shown (fun _ i => i + 1) .fresh
      (Board.controller ⟨[⟨false, 0x28⟩], fun _ => true⟩
        (finish openEnv none (.fresh ⟨started openEnv, [], []⟩)
          [⟨.setDdram (some (ddramAddr 12)), wholeReads⟩, ⟨.writeLetters (.other none), wholeReads⟩,
            ⟨.writeLetters (.str [.scalar 'A']), wholeReads⟩]).daemon.host)
      (some ⟨true, true, false, 0, some 0x11, Function.update (fun _ => 0x20) 0x10 0x41⟩) := by
  have hshown := displays_calls openEnv_sound (fun _ i => i + 1) .fresh ⟨[⟨false, 0x28⟩], fun _ => true⟩
    [⟨.setDdram (some (ddramAddr 12)), wholeReads⟩, ⟨.writeLetters (.other none), wholeReads⟩,
      ⟨.writeLetters (.str [.scalar 'A']), wholeReads⟩] (by simp [wholeReads])
  exact hshown

end Evi7688.Python.ShimRuns
