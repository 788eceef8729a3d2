/- Evi7688/Python/DisplayCaptionFunc
   digest: The displayCaptionFunc shim over an optional evi module and the daemon's socket. -/

import Evi7688.Library.PyText
import Evi7688.Lcdsvc.Service
import Evi7688.Libevi.Screens

set_option autoImplicit false
set_option relaxedAutoImplicit false

namespace Evi7688.Python.DisplayCaptionFunc

open Evi7688.Library.Bytes (CString ascii newline)
open Evi7688.Library.Numerals (hexByte isSpace)
open Evi7688.Library.CharacterPanel (Pulse)
open Evi7688.Library.PyText
open Evi7688.Lcdsvc.LcdHw (SysfsEnv Host)
open Evi7688.Lcdsvc.Service (Session Reads handleClient handleClient_grows)
open Evi7688.Libevi.Hal (HalState BusOp)
open Evi7688.Libevi.Screens (Screen Statics)

structure Lib where
  statics : Statics
  hal : HalState

def Lib.loaded : Lib := ⟨.powerOn, .powerOn⟩

inductive PyResult
  | raised
  | returnedNone
  | returned (r : Int)

abbrev Method := Lib → PyResult × Lib

/-- The attributes of an imported `evi` that the shim looks for. -/
structure Evi where
  init : Option Method
  instr : Option (UInt8 → Method)
  clear : Option Method
  ddram : Option (UInt8 → Method)
  dispComplete : Option (PyStr → PyStr → Method)
  setText : Option (PyStr → Method)
  printText : Option (PyStr → Method)
  put : Option (PyStr → Method)

/-- The bytes of a `c_char_p` argument, as far as its first NUL. -/
def cCharP (bytes : List UInt8) : CString :=
  ⟨bytes.takeWhile (· != 0), fun h => by simpa using List.mem_takeWhile_imp h⟩

def dispComplete (item value : PyStr) : Method := fun lib =>
  match encode item, encode value with
  | some item, some value =>
    let drawn := (Screen.dispComplete (some (cCharP item)) (some (cCharP value))).call lib.statics
    (.returnedNone, ⟨drawn.2, lib.hal.performs drawn.1⟩)
  | _, _ => (.raised, lib)

theorem dispComplete_raised {value : PyStr} (h : encode value = none) (item : PyStr) (lib : Lib) :
    dispComplete item value lib = (.raised, lib) := by
  cases hitem : encode item <;> simp [dispComplete, hitem, h]

/-- `evi.py` has one of the methods the shim looks for. -/
def eviPy : Evi where
  init := none
  instr := none
  clear := none
  ddram := none
  dispComplete := some dispComplete
  setText := none
  printText := none
  put := none

/-- How one request over the socket fares: whether `socket` and `connect` succeed, how the
daemon's reads cut the request, and how many replies besides the first are there for `recv`. -/
structure Transport where
  up : Bool
  cut : List UInt8 → List (List UInt8)
  reads : ∀ stream, Reads (cut stream) stream
  moreReplies : Nat

structure World where
  daemon : Session
  lib : Lib
  inited : Bool

def World.fresh (daemon : Session) : World := ⟨daemon, .loaded, false⟩

section Calls

variable (env : SysfsEnv) (t : Transport)

def send (cmd : PyStr) (w : World) : Int × World :=
  if !t.up then (-1, w)
  else
    let cmd := if cmd.getLast? = some (.scalar '\n') then cmd else cmd ++ [.scalar '\n']
    let daemon := handleClient env (t.cut (encodeIgnore cmd)) { w.daemon with replies := [] }
    let data := (daemon.replies.take (1 + t.moreReplies)).flatten.take 256
    (if data = [] then -1 else if ascii "OK" <+: data.dropWhile isSpace then 0 else -1,
      { w with daemon := daemon })

variable (evi : Option Evi)

def ensureInit (w : World) : World :=
  if w.inited then w
  else
    match evi >>= Evi.init with
    | none => { w with inited := true }
    | some init => { w with lib := (init w.lib).2, inited := true }

/-- A method of `evi`, if there is one, with what follows if there is none or if it raises. -/
def delegate (method : Option Method) (otherwise : World → Int × World) (w : World) :
    Int × World :=
  match method with
  | none => otherwise w
  | some method =>
    let r := method w.lib
    let w := { w with lib := r.2 }
    match r.1 with
    | .raised => otherwise w
    | .returnedNone => (0, w)
    | .returned r => (if r = 0 then 0 else -1, w)

theorem delegate_raised {method : Method} {w : World} (h : method w.lib = (.raised, w.lib))
    (otherwise : World → Int × World) : delegate (some method) otherwise w = otherwise w := by
  simp only [delegate, h]

theorem delegate_returnedNone {method : Method} {w : World} {lib : Lib}
    (h : method w.lib = (.returnedNone, lib)) (otherwise : World → Int × World) :
    delegate (some method) otherwise w = (0, { w with lib := lib }) := by
  simp only [delegate, h]

/-- The text argument of `write_letters`; any other object has a `str` or raises on it. -/
inductive Letters
  | str (s : PyStr)
  | bytes (b : List UInt8)
  | other (text : Option PyStr)

def Letters.text : Letters → Option PyStr
  | .str s => some s
  | .bytes b => some (decodeIgnore b)
  | .other text => text

/-- `int(val) & 0xFF`, where `int(val)` may raise. -/
def lowByte (val : Option Int) : Option UInt8 := val.map fun v => UInt8.ofNat (v % 256).toNat

/-- `none` is a call that raises. -/
def writeInstructions (val : Option Int) (w : World) : Option Int × World :=
  let w := ensureInit evi w
  match lowByte val with
  | none => (none, w)
  | some v =>
    let r := delegate ((evi >>= Evi.instr).map (· v))
      (send env t (ofAscii (ascii "INSTR 0x" ++ hexByte v))) w
    (some r.1, r.2)

def writeLetters (wordStr : Letters) (w : World) : Option Int × World :=
  let w := ensureInit evi w
  match wordStr.text with
  | none => (none, w)
  | some s =>
    let r := delegate ((evi >>= Evi.dispComplete).map (· (ofAscii (ascii "text")) s))
      (delegate ((evi >>= Evi.setText).map (· s))
        (delegate ((evi >>= Evi.printText).map (· s))
          (delegate ((evi >>= Evi.put).map (· s))
            (send env t (ofAscii (ascii "PUT ") ++ s))))) w
    (some r.1, r.2)

def lcdClr (w : World) : Option Int × World :=
  let w := ensureInit evi w
  let r := delegate (evi >>= Evi.clear) (send env t (ofAscii (ascii "CLEAR"))) w
  (some r.1, r.2)

def setDdram (addr : Option Int) (w : World) : Option Int × World :=
  match lowByte addr with
  | none => (none, w)
  | some a =>
    let r := delegate ((evi >>= Evi.ddram).map (· a))
      (send env t (ofAscii (ascii "DDRAM 0x" ++ hexByte a))) w
    (some r.1, r.2)

end Calls

inductive ShimCall
  | writeInstructions (val : Option Int)
  | writeLetters (wordStr : Letters)
  | lcdClr
  | setDdram (addr : Option Int)

def ShimCall.run (env : SysfsEnv) (t : Transport) (evi : Option Evi) :
    ShimCall → World → Option Int × World
  | .writeInstructions val => DisplayCaptionFunc.writeInstructions env t evi val
  | .writeLetters wordStr => DisplayCaptionFunc.writeLetters env t evi wordStr
  | .lcdClr => DisplayCaptionFunc.lcdClr env t evi
  | .setDdram addr => DisplayCaptionFunc.setDdram env t evi addr

/-- The byte a step of the HAL hands to the panel; a single nibble goes over the upper lines. -/
def busSent : BusOp → List Pulse
  | .w4 n rs => [⟨rs, UInt8.ofNat (n % 16 * 16)⟩]
  | .w8 v rs => [⟨rs, v⟩]
  | _ => []

/-- What reaches the panel between two moments: bytes from the library's HAL and from the daemon,
in the order in which one call can use them. -/
def sentBetween (before after : World) : List Pulse :=
  (after.lib.hal.bus.drop before.lib.hal.bus.length).flatMap busSent ++
    after.daemon.host.received.drop before.daemon.host.received.length

structure Step where
  call : ShimCall
  transport : Transport

structure Result where
  call : ShimCall
  rc : Option Int
  sent : List Pulse

def run (env : SysfsEnv) (evi : Option Evi) : World → List Step → List Result
  | _, [] => []
  | w, step :: steps =>
    let r := step.call.run env step.transport evi w
    ⟨step.call, r.1, sentBetween w r.2⟩ :: run env evi r.2 steps

def finish (env : SysfsEnv) (evi : Option Evi) (w : World) (steps : List Step) : World :=
  steps.foldl (fun w step => (step.call.run env step.transport evi w).2) w

section Socket

variable (env : SysfsEnv)

theorem send_snd (t : Transport) (cmd : PyStr) (w : World) :
    (send env t cmd w).2 = w ∨ ∃ pieces, (send env t cmd w).2 =
      { w with daemon := handleClient env pieces { w.daemon with replies := [] } } := by
  unfold send
  split_ifs
  · exact .inl rfl
  all_goals exact .inr ⟨_, rfl⟩

theorem send_step (t : Transport) (cmd : PyStr) (w : World) :
    (send env t cmd w).2.lib = w.lib ∧
      w.daemon.host.received <+: (send env t cmd w).2.daemon.host.received := by
  rcases send_snd env t cmd w with hsame | ⟨pieces, hsent⟩
  · rw [hsame]
    exact ⟨rfl, List.prefix_rfl⟩
  · rw [hsent]
    have hgrows := handleClient_grows env pieces { w.daemon with replies := [] }
    exact ⟨rfl, Host.received_prefix hgrows⟩

theorem ensureInit_none (w : World) : ensureInit none w = { w with inited := true } := by
  unfold ensureInit
  split_ifs with h
  · rw [← h]
  · rfl

theorem call_socket (t : Transport) (call : ShimCall) (w : World) :
    ∃ w₀ : World, w₀.daemon = w.daemon ∧ w₀.lib = w.lib ∧
      (call.run env t none w = (none, w₀) ∨
        ∃ cmd, call.run env t none w = (some (send env t cmd w₀).1, (send env t cmd w₀).2)) := by
  cases call with
  | writeInstructions val =>
    refine ⟨{ w with inited := true }, rfl, rfl, ?_⟩
    simp only [ShimCall.run, writeInstructions, ensureInit_none]
    cases lowByte val with
    | none => exact .inl rfl
    | some v => exact .inr ⟨_, rfl⟩
  | writeLetters wordStr =>
    refine ⟨{ w with inited := true }, rfl, rfl, ?_⟩
    simp only [ShimCall.run, writeLetters, ensureInit_none]
    cases wordStr.text with
    | none => exact .inl rfl
    | some s => exact .inr ⟨_, rfl⟩
  | lcdClr =>
    refine ⟨{ w with inited := true }, rfl, rfl, .inr ⟨ofAscii (ascii "CLEAR"), ?_⟩⟩
    simp only [ShimCall.run, lcdClr, ensureInit_none]
    rfl
  | setDdram addr =>
    refine ⟨w, rfl, rfl, ?_⟩
    simp only [ShimCall.run, setDdram]
    cases lowByte addr with
    | none => exact .inl rfl
    | some a => exact .inr ⟨_, rfl⟩

theorem socket_step (t : Transport) (call : ShimCall) (w : World) :
    (call.run env t none w).2.lib = w.lib ∧
      w.daemon.host.received <+: (call.run env t none w).2.daemon.host.received := by
  obtain ⟨w₀, hdaemon, hlib, hraises | ⟨cmd, hsends⟩⟩ := call_socket env t call w
  · rw [hraises]
    exact ⟨hlib, hdaemon ▸ List.prefix_rfl⟩
  · rw [hsends]
    obtain ⟨hkept, hgrows⟩ := send_step env t cmd w₀
    rw [hdaemon] at hgrows
    exact ⟨hkept.trans hlib, hgrows⟩

/-- Over the socket the contributions of the calls spell what the panel latches from the daemon. -/
theorem received_finish (w : World) (steps : List Step) :
    (finish env none w steps).daemon.host.received =
      w.daemon.host.received ++ (run env none w steps).flatMap Result.sent := by
  induction steps generalizing w with
  | nil => simp [finish, run]
  | cons step steps ih =>
    obtain ⟨hlib, more, hmore⟩ := socket_step env step.transport step.call w
    have hsent : sentBetween w (step.call.run env step.transport none w).2 = more := by
      rw [sentBetween, hlib, ← hmore]
      simp
    have hstep : finish env none w (step :: steps) =
        finish env none (step.call.run env step.transport none w).2 steps := rfl
    rw [hstep, ih, run, List.flatMap_cons, hsent, ← hmore, List.append_assoc]

end Socket

end Evi7688.Python.DisplayCaptionFunc
