/- Evi7688/Libevi/Caption
   digest: The boot and information screens, drawn unless their cache holds the same screen. -/

import Evi7688.Libevi.Hal

set_option autoImplicit false
set_option relaxedAutoImplicit false

namespace Evi7688.Libevi.Caption

open Evi7688.Library.Bytes (CString CArray literal)
open Hal

def displayClear : UInt8 := 0x01

def displayOn : UInt8 := 0x0C

def basicFunc : UInt8 := 0x38

/-- The `SCN_*` identifiers of `evi_caption.c`. -/
inductive Scn
  | none | initial | sysload | info1 | info2 | info3 | info4 | standby
  deriving DecidableEq

theorem cacheSize_pos : 0 < 48 := by decide

structure Ui where
  id : Scn
  inited : Bool
  extra : Int
  a : CArray 48
  b : CArray 48
  deriving DecidableEq

def Ui.initial : Ui := ⟨.none, false, 0, .copy 48 cacheSize_pos none, .copy 48 cacheSize_pos none⟩

/-- `streq`: a null pointer is equal to a null pointer only. -/
def streq (x y : Option CString) : Bool :=
  match x, y with
  | none, none => true
  | some x, some y => x = y
  | _, _ => false

def need (id : Scn) (a b : Option CString) (e : Int) (ui : Ui) : Bool × Ui :=
  if !ui.inited then (true, { ui with inited := true })
  else if ui.id ≠ id then (true, ui)
  else if !streq a (some ui.a.toCString) then (true, ui)
  else if !streq b (some ui.b.toCString) then (true, ui)
  else if ui.extra ≠ e then (true, ui)
  else (false, ui)

def keep (id : Scn) (a b : Option CString) (e : Int) (ui : Ui) : Ui :=
  { ui with id := id, extra := e, a := .copy 48 cacheSize_pos a, b := .copy 48 cacheSize_pos b }

def begin : List HalOp :=
  [.writeInstr basicFunc, .delayUs 72, .writeInstr displayClear, .delayUs 1600,
    .writeInstr displayOn, .delayUs 72]

def big5 (hi lo : UInt8) : List HalOp := [.writeGraphic hi, .writeGraphic lo, .delayUs 72]

def letters (s : String) : HalOp := .writeLetters (some (literal s))

/-- An argument as it is drawn: a null pointer as the empty string. -/
def argument (s : Option CString) : HalOp := .writeLetters (some (s.getD .empty))

/-- The common shape of the screens: look at the cache, draw, fill the cache. The calls are
serialised by the library's mutex. -/
def captionScreen (id : Scn) (a b : Option CString) (e : Int) (body : List HalOp) (ui : Ui) :
    List HalOp × Ui :=
  let needed := need id a b e ui
  if !needed.1 then ([], needed.2) else (begin ++ body, keep id a b e needed.2)

def eviCaptionInitial : Ui → List HalOp × Ui :=
  captionScreen .initial none none 0
    ([.moveDdram 0, letters " Charger Initialization", .moveDdram 15] ++
      big5 0xA5 0x52 ++ big5 0xB9 0x71 ++ big5 0xBE 0xB9 ++ big5 0xAA 0xEC ++ big5 0xA9 0x6C ++
      big5 0xA4 0xC6)

def eviCaptionSystemLoading : Ui → List HalOp × Ui :=
  captionScreen .sysload none none 0
    ([.moveDdram 2, letters "System Loading...", .moveDdram 15] ++
      big5 0xA8 0x74 ++ big5 0xB2 0xCE ++ big5 0xB8 0xFC ++ big5 0xA4 0x4A ++ big5 0xA4 0xA4)

def infoScreen (id : Scn) (label₁ : String) (addr₁ : UInt8) (label₂ : String) (addr₂ : UInt8)
    (m s : Option CString) : Ui → List HalOp × Ui :=
  captionScreen id m s 0
    [.moveDdram 0, letters label₁, .moveDdram addr₁, argument m,
      .moveDdram 12, letters label₂, .moveDdram addr₂, argument s]

def eviCaptionInfo1 (m s : Option CString) : Ui → List HalOp × Ui :=
  infoScreen .info1 "MCU Ver:" 5 "SoC Ver:" 17 m s

def eviCaptionInfo2 (sn pn : Option CString) : Ui → List HalOp × Ui :=
  infoScreen .info2 "SN:" 2 "Prod. Name:" 18 sn pn

def eviCaptionInfo3 (mv mc : Option CString) : Ui → List HalOp × Ui :=
  infoScreen .info3 "Meter Ver:" 6 "Max Current:" 19 mv mc

def eviCaptionInfo4 (m2 c2 : Option CString) : Ui → List HalOp × Ui :=
  infoScreen .info4 "Meter 2 Ver:" 7 "Max Current:" 19 m2 c2

def eviCaptionStandby (d : Int) : Ui → List HalOp × Ui :=
  captionScreen .standby none none d
    ([.moveDdram 2, letters " Charger Standby", .moveDdram 15] ++
      big5 0xA5 0x52 ++ big5 0xB9 0x71 ++ big5 0xBE 0xB9 ++ big5 0xAB 0xDD ++ big5 0xBE 0xF7 ++
      big5 0xA4 0xA4 ++
      if d > 0 then big5 0xA1 0x56 ++ big5 0xA9 0xB5 ++ big5 0xAE 0xC9 else [])

theorem streq_some_iff (x : Option CString) (y : CString) :
    streq x (some y) = true ↔ x = some y := by
  cases x with
  | none => simp [streq]
  | some x => simp [streq]

def Ui.Hit (ui : Ui) (id : Scn) (a b : Option CString) (e : Int) : Prop :=
  ui.inited = true ∧ ui.id = id ∧ a = some ui.a.toCString ∧ b = some ui.b.toCString ∧ ui.extra = e

def Ui.stored (id : Scn) (a b : Option CString) (e : Int) : Ui :=
  ⟨id, true, e, .copy 48 cacheSize_pos a, .copy 48 cacheSize_pos b⟩

theorem Ui.Hit.stored {ui : Ui} {id : Scn} {a b : Option CString} {e : Int}
    (h : ui.Hit id a b e) : ui = Ui.stored id a b e := by
  obtain ⟨hinited, rfl, rfl, rfl, rfl⟩ := h
  simp only [Ui.stored, CArray.copy_toCString, ← hinited]

theorem need_fst_eq_false_iff (ui : Ui) (id : Scn) (a b : Option CString) (e : Int) :
    (need id a b e ui).1 = false ↔ ui.Hit id a b e := by
  simp only [need, Ui.Hit, ← streq_some_iff]
  split_ifs <;> simp_all

theorem need_snd (ui : Ui) (id : Scn) (a b : Option CString) (e : Int) :
    (need id a b e ui).2 = { ui with inited := true } := by
  obtain ⟨id', inited, extra, a', b'⟩ := ui
  cases inited with
  | false => rfl
  | true =>
    simp only [need]
    split_ifs <;> rfl

theorem captionScreen_of_hit {ui : Ui} {id : Scn} {a b : Option CString} {e : Int}
    (body : List HalOp) (h : ui.Hit id a b e) : captionScreen id a b e body ui = ([], ui) := by
  have hfst := (need_fst_eq_false_iff ui id a b e).mpr h
  have hsame : ({ ui with inited := true } : Ui) = ui := by
    obtain ⟨hinited, -⟩ := h
    simp only [← hinited]
  simp [captionScreen, hfst, need_snd, hsame]

theorem captionScreen_of_miss {ui : Ui} {id : Scn} {a b : Option CString} {e : Int}
    (body : List HalOp) (h : ¬ ui.Hit id a b e) :
    captionScreen id a b e body ui = (begin ++ body, Ui.stored id a b e) := by
  have hfst : (need id a b e ui).1 = true := by
    simpa using mt (need_fst_eq_false_iff ui id a b e).mp h
  simp [captionScreen, hfst, need_snd, keep, Ui.stored]

end Evi7688.Libevi.Caption
