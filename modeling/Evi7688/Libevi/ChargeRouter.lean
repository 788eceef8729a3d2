/- Evi7688/Libevi/ChargeRouter
   digest: The charging screens, drawn unless their own cache holds the same screen. -/

import Evi7688.Libevi.Caption

set_option autoImplicit false
set_option relaxedAutoImplicit false

namespace Evi7688.Libevi.ChargeRouter

open Evi7688.Library.Bytes (CString CArray)
open Hal
open Caption (displayClear displayOn basicFunc big5 letters streq_some_iff cacheSize_pos)

/-- The `SCN_*` identifiers of `evi_charge_router.c`; `zero` is the initial value. -/
inductive Scn
  | zero | prep | authZh | authEn | pluginZh | pluginEn | srvConn | srvFail | srvLost | mval | done
  deriving DecidableEq

structure U2 where
  id : Scn
  a : CArray 48
  b : CArray 48
  deriving DecidableEq

def U2.initial : U2 := ⟨.zero, .copy 48 cacheSize_pos none, .copy 48 cacheSize_pos none⟩

def eq (x y : Option CString) : Bool := Caption.streq x y

def need2 (id : Scn) (a b : Option CString) (u2 : U2) : Bool :=
  if u2.id ≠ id then true
  else if !eq a (some u2.a.toCString) then true
  else if !eq b (some u2.b.toCString) then true
  else false

def keep2 (id : Scn) (a b : Option CString) : U2 :=
  ⟨id, .copy 48 cacheSize_pos a, .copy 48 cacheSize_pos b⟩

def begin : List HalOp :=
  [.writeInstr basicFunc, .delayUs 72, .writeInstr displayClear, .delayUs 1600,
    .writeInstr displayOn, .delayUs 72]

def eviChargePreparing : List HalOp :=
  [.moveDdram 2, letters "Charger Preparing", .moveDdram 15] ++
    big5 0xA5 0x52 ++ big5 0xB9 0x71 ++ big5 0xBE 0xB9 ++ big5 0xB7 0xC7 ++ big5 0xB3 0xC6 ++
    big5 0xA4 0xA4

def eviChargeAuthWaitChar : List HalOp :=
  [.moveDdram 3] ++
    big5 0xB5 0xA5 ++ big5 0xAB 0xDD ++ big5 0xA8 0xAE ++ big5 0xBA 0xDD ++ big5 0xB3 0x73 ++
    big5 0xB1 0xB5 ++ [.moveDdram 14] ++
    big5 0xB5 0xA5 ++ big5 0xAB 0xDD ++ big5 0xAE 0xC9 ++ big5 0xB6 0xA1 ++ big5 0xA9 0x7C ++
    big5 0xBE 0x6C ++ [.moveDdram 20, .moveDdram 22] ++ big5 0xAC 0xED

def eviChargeAuthWaitEng : List HalOp :=
  [.moveDdram 0, letters "Wait Connect. to The Car", .moveDdram 13]

def eviChargePluginWaitChar : List HalOp :=
  [.moveDdram 3] ++
    big5 0xB5 0xA5 ++ big5 0xAB 0xDD ++ big5 0xA5 0x52 ++ big5 0xB9 0x71 ++ big5 0xB1 0xD2 ++
    big5 0xB0 0xCA ++ [.moveDdram 14] ++
    big5 0xB5 0xA5 ++ big5 0xAB 0xDD ++ big5 0xAE 0xC9 ++ big5 0xB6 0xA1 ++ big5 0xA9 0x7C ++
    big5 0xBE 0x6C ++ [.moveDdram 20, .moveDdram 22] ++ big5 0xAC 0xED

def eviChargePluginWaitEng : List HalOp :=
  [.moveDdram 1, letters " Wait Starting-up", .moveDdram 13]

def eviChargeGetMvalue : List HalOp := []

def eviChargeDispComplete : List HalOp := []

def eviChargeServerConn : List HalOp :=
  [.moveDdram 0, letters "Connecting to the Server", .moveDdram 15] ++
    big5 0xA6 0xF8 ++ big5 0xAA 0x41 ++ big5 0xBE 0xB9 ++ big5 0xB3 0x73 ++ big5 0xBD 0x75 ++
    big5 0xA4 0xA4

def eviChargeServerConnFailed : List HalOp :=
  [.moveDdram 2, letters "Connection Failed", .moveDdram 14] ++
    big5 0xA1 0x40 ++ big5 0xA6 0xF8 ++ big5 0xAA 0x41 ++ big5 0xBE 0xB9 ++ big5 0xB3 0x73 ++
    big5 0xBD 0x75 ++ big5 0xA5 0xA2 ++ big5 0xB1 0xD1

def eviChargeServerConnLost : List HalOp :=
  [.moveDdram 2, letters "Connection Lost", .moveDdram 14] ++
    big5 0xBB 0x50 ++ big5 0xA6 0xF8 ++ big5 0xAA 0x41 ++ big5 0xBE 0xB9 ++ big5 0xA5 0xA2 ++
    big5 0xA5 0x68 ++ big5 0xB3 0x73 ++ big5 0xBD 0x75

def chargeScreen (id : Scn) (a b : Option CString) (body : List HalOp) (u2 : U2) :
    List HalOp × U2 :=
  if !need2 id a b u2 then ([], u2) else (begin ++ body, keep2 id a b)

def eviCaptionPreparing : U2 → List HalOp × U2 := chargeScreen .prep none none eviChargePreparing

def eviCaptionAuthWaiting (s : Int) : U2 → List HalOp × U2 :=
  let id : Scn := if s.tmod 2 = 0 then .authZh else .authEn
  chargeScreen id none none (if id = .authZh then eviChargeAuthWaitChar else eviChargeAuthWaitEng)

def eviCaptionPlugInWaiting (s : Int) : U2 → List HalOp × U2 :=
  let id : Scn := if s.tmod 2 = 0 then .pluginZh else .pluginEn
  chargeScreen id none none
    (if id = .pluginZh then eviChargePluginWaitChar else eviChargePluginWaitEng)

def eviCaptionServerConn : U2 → List HalOp × U2 :=
  chargeScreen .srvConn none none eviChargeServerConn

def eviCaptionServerConnFailed : U2 → List HalOp × U2 :=
  chargeScreen .srvFail none none eviChargeServerConnFailed

def eviCaptionServerConnLost : U2 → List HalOp × U2 :=
  chargeScreen .srvLost none none eviChargeServerConnLost

def eviCaptionGetMValue (a b : Option CString) : U2 → List HalOp × U2 :=
  chargeScreen .mval a b eviChargeGetMvalue

def eviCaptionDispComplete (a b : Option CString) : U2 → List HalOp × U2 :=
  chargeScreen .done a b eviChargeDispComplete

def U2.Hit (u2 : U2) (id : Scn) (a b : Option CString) : Prop :=
  u2.id = id ∧ a = some u2.a.toCString ∧ b = some u2.b.toCString

theorem need2_eq_false_iff (u2 : U2) (id : Scn) (a b : Option CString) :
    need2 id a b u2 = false ↔ u2.Hit id a b := by
  simp only [need2, eq, U2.Hit, ← streq_some_iff]
  split_ifs <;> simp_all

theorem U2.Hit.stored {u2 : U2} {id : Scn} {a b : Option CString} (h : u2.Hit id a b) :
    u2 = keep2 id a b := by
  obtain ⟨rfl, rfl, rfl⟩ := h
  simp only [keep2, CArray.copy_toCString]

end Evi7688.Libevi.ChargeRouter
