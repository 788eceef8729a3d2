/- Evi7688/Azurectl/SetCommand
   digest: What `evi-azurectl --set` does with its argument, and when it says it did. -/

import Evi7688.Azurectl.UsbDongle
import Evi7688.Library.Delimited

set_option autoImplicit false
set_option relaxedAutoImplicit false

namespace Evi7688.Azurectl.SetCommand

open Evi7688.Library.Bytes (ascii newline)
open Evi7688.Library.Delimited (takeWhile_record dropWhile_record)
open Evi7688.Library.Numerals
open Uci
open Main
open UsbDongle

/-- The calls of one run that reach outside the process, with their results. -/
inductive Effect
  | usbSetPort (act : Act) (port : Nat) (rc : Int)
  | uciGet (key : List UInt8)
  | uciSet (key val : List UInt8) (rc : Int)
  | uciCommit (pkg : List UInt8) (rc : Int)
  | printf (text : List UInt8)
  deriving DecidableEq

/-- The outside of one run: the store, the exchange with the dongle, and the exit statuses of the
shell commands that write and commit. -/
structure World where
  store : UciStore
  exchange : Exchange
  uciSet : Int
  uciCommit : Int

def comma : UInt8 := 0x2C

def pingsettingsKey : List UInt8 := ascii "system.@system[0].pingsettings"

def wrongSettings : List UInt8 := ascii "Wrong settings\n"

def replyText (name valStr : List UInt8) : List UInt8 := name ++ ascii "," ++ valStr ++ ascii "\n"

def actName : Act → List UInt8
  | .on => ascii "devon"
  | .off => ascii "devoff"

/-- The `setDev` branch once the port is in range. -/
def setDev (w : World) (req : Request) (valStr : List UInt8) : List Effect :=
  let rc := (UsbDongle.usbSetPort w.exchange req.act req.port).1
  let mask := newMask req (uciGetInt (w.store.values dongleportKey))
  .usbSetPort req.act req.port rc ::
    (if rc = 0 then
      [.uciGet dongleportKey, .uciSet dongleportKey (intText mask) w.uciSet,
        .uciCommit (ascii "system") w.uciCommit]
    else []) ++
    [.printf (replyText (actName req.act) valStr)]

def setPingSettings (w : World) (valStr : List UInt8) : List Effect :=
  [.uciSet pingsettingsKey valStr w.uciSet, .uciCommit (ascii "system") w.uciCommit,
    .printf (replyText (ascii "pingsettings") valStr)]

/-- The `--set` branch of `main` once the first comma is cut out. -/
def setPair (w : World) (key valStr : List UInt8) : List Effect :=
  if ascii "setDev" <+: key then
    match parseSetDev key valStr with
    | none => [.printf wrongSettings]
    | some req => setDev w req valStr
  else if key = ascii "setPingSettings" then setPingSettings w valStr
  else [.printf wrongSettings]

def mainSet (w : World) (pair : List UInt8) : List Effect :=
  if comma ∈ pair then
    setPair w (pair.takeWhile (· != comma)) (pair.dropWhile (· != comma)).tail
  else [.printf wrongSettings]

/-- The numerals a port may be written as, with their values. -/
inductive Numeral : List UInt8 → Nat → Prop
  | hex {ds : List UInt8} (nonempty : ds ≠ []) (digits : ∀ d ∈ ds, isHexDigit d = true) :
    Numeral ds (digitsValue 16 ds)
  | prefixed {ds : List UInt8} (nonempty : ds ≠ []) (digits : ∀ d ∈ ds, isHexDigit d = true) :
    Numeral (ascii "0x" ++ ds) (digitsValue 16 ds)
  | decimal {ds : List UInt8} (nonempty : ds ≠ []) (digits : ∀ d ∈ ds, isDigit d = true) :
    Numeral ds (digitsValue 10 ds)

def setName : Act → List UInt8
  | .on => ascii "setDevOn"
  | .off => ascii "setDevOff"

/-- The relay commands of the documentation. -/
structure Documented (key val : List UInt8) (act : Act) (port : Nat) : Prop where
  name : key = setName act
  numeral : Numeral val port
  lower : 1 ≤ port
  upper : port ≤ 4

def relays (effects : List Effect) : List (Act × Nat) :=
  effects.filterMap fun
    | .usbSetPort act port _ => some (act, port)
    | _ => none

/-- A documented command switches its relay; any other argument is refused and does nothing. -/
structure Conforms (w : World) (key val : List UInt8) : Prop where
  documented : ∀ act port, Documented key val act port →
    relays (mainSet w (key ++ comma :: val)) = [(act, port)]
  refused : (∀ act port, ¬ Documented key val act port) →
    mainSet w (key ++ comma :: val) = [.printf wrongSettings]

section Numerals

theorem digitsValue_of_le_nine {ds : List UInt8} (h : digitsValue 10 ds ≤ 9) :
    digitsValue 16 ds = digitsValue 10 ds := by
  have hdigits : ∀ l : List Nat, Nat.ofDigits 10 l ≤ 9 → Nat.ofDigits 16 l = Nat.ofDigits 10 l := by
    intro l
    induction l with
    | nil => exact fun _ => rfl
    | cons d l ih =>
      intro hl
      rw [Nat.ofDigits_cons] at hl
      rw [Nat.ofDigits_cons, Nat.ofDigits_cons, ih (by omega)]
      omega
  exact hdigits _ h

theorem portOf_of_scanHex {val : List UInt8} {n : Nat} (h : scanHex val = some n) (lower : 1 ≤ n)
    (upper : n ≤ 4) : portOf val = n := by
  have hhex : parseHexU8 val = n := by
    simp only [parseHexU8, h]
    rw [if_neg (by omega)]
  rw [portOf, hhex, if_pos (by omega)]

theorem Numeral.portOf_eq {val : List UInt8} {n : Nat} (h : Numeral val n) (lower : 1 ≤ n)
    (upper : n ≤ 4) : portOf val = n := by
  apply portOf_of_scanHex _ lower upper
  cases h with
  | hex nonempty digits => exact scanHex_digits nonempty digits (by omega)
  | prefixed nonempty digits => exact scanHex_prefixed nonempty digits (by omega)
  | decimal nonempty digits =>
    have hsame : digitsValue 16 val = digitsValue 10 val := digitsValue_of_le_nine (by omega)
    rw [← hsame]
    refine scanHex_digits nonempty (fun d hd => ?_) (by omega)
    simp [isHexDigit, digits d hd]

end Numerals

theorem mainSet_pair (w : World) {key : List UInt8} (val : List UInt8) (hkey : comma ∉ key) :
    mainSet w (key ++ comma :: val) = setPair w key val := by
  have hcomma : comma ∈ key ++ comma :: val := List.mem_append_right _ List.mem_cons_self
  rw [mainSet, if_pos hcomma, takeWhile_record hkey, dropWhile_record hkey, List.tail_cons]

theorem relays_setDev (w : World) (req : Request) (val : List UInt8) :
    relays (setDev w req val) = [(req.act, req.port)] := by
  simp only [setDev, relays]
  split_ifs <;> rfl

theorem setPair_refused (w : World) {key val : List UInt8} (hkey : ascii "setDev" <+: key)
    (hport : ¬ (1 ≤ portOf val ∧ portOf val ≤ 4)) : setPair w key val = [.printf wrongSettings] := by
  have hnone : parseSetDev key val = none := by
    rw [parseSetDev, if_pos hkey, dif_pos (by omega)]
  rw [setPair, if_pos hkey, hnone]

theorem parseSetDev_eq_some {key val : List UInt8} (hkey : ascii "setDev" <+: key)
    (lower : 1 ≤ portOf val) (upper : portOf val ≤ 4) :
    parseSetDev key val =
      some ⟨if key.drop 6 = ascii "On" then .on else .off, (portOf val).toNat, by omega⟩ := by
  rw [parseSetDev, if_pos hkey, dif_neg (by omega)]

theorem setName_starts (act : Act) : ascii "setDev" <+: setName act := by
  cases act with
  | on => exact ⟨ascii "On", rfl⟩
  | off => exact ⟨ascii "Off", rfl⟩

theorem relays_documented (w : World) {key val : List UInt8} {act : Act} {port : Nat}
    (h : Documented key val act port) : relays (setPair w key val) = [(act, port)] := by
  have hport := h.numeral.portOf_eq h.lower h.upper
  have hprefix : ascii "setDev" <+: key := h.name ▸ setName_starts act
  have hrequest := parseSetDev_eq_some hprefix (by rw [hport]; exact_mod_cast h.lower)
    (by rw [hport]; exact_mod_cast h.upper)
  have hact : (if key.drop 6 = ascii "On" then Act.on else Act.off) = act := by
    rw [h.name]
    cases act <;> rfl
  rw [setPair, if_pos hprefix, hrequest]
  simp only [relays_setDev, hact, hport, Int.toNat_natCast]

/-- The command line is understood as documented exactly when no `setDev` argument that the two
scanners take for a port has another key or more than a numeral in it. -/
theorem conforms_iff (w : World) {key val : List UInt8} (hkey : comma ∉ key)
    (hping : key ≠ ascii "setPingSettings") :
    Conforms w key val ↔ (ascii "setDev" <+: key → 1 ≤ portOf val → portOf val ≤ 4 →
      (∃ act, key = setName act) ∧ Numeral val (portOf val).toNat) := by
  constructor
  · intro h hprefix lower upper
    by_contra hodd
    have hundocumented : ∀ act port, ¬ Documented key val act port := by
      intro act port hdoc
      apply hodd
      refine ⟨⟨act, hdoc.name⟩, ?_⟩
      rw [hdoc.numeral.portOf_eq hdoc.lower hdoc.upper]
      exact hdoc.numeral
    have hrefused := h.refused hundocumented
    rw [mainSet_pair w val hkey, setPair, if_pos hprefix,
      parseSetDev_eq_some hprefix lower upper] at hrefused
    cases hrefused
  · intro h
    constructor
    · intro act port hdoc
      rw [mainSet_pair w val hkey]
      exact relays_documented w hdoc
    · intro hundocumented
      rw [mainSet_pair w val hkey]
      by_cases hprefix : ascii "setDev" <+: key
      · apply setPair_refused w hprefix
        rintro ⟨lower, upper⟩
        obtain ⟨⟨act, hname⟩, hnumeral⟩ := h hprefix lower upper
        exact hundocumented act _ ⟨hname, hnumeral, by omega, by omega⟩
      · rw [setPair, if_neg hprefix, if_neg hping]

def silentDongle : Exchange := ⟨true, true, 4, 1, fun _ => []⟩

def noSettings : World := ⟨⟨fun _ => none, fun _ => none⟩, silentDongle, 0, 0⟩

theorem conforms_setDevOn_01 : Conforms noSettings (ascii "setDevOn") (ascii "01") := by
  apply (conforms_iff noSettings (by decide) (by decide)).mpr
  intro _ _ _
  have hdigits : (ascii "01").all isDigit = true := by decide
  have hnumeral : Numeral (ascii "01") (digitsValue 10 (ascii "01")) :=
    .decimal (by decide) (List.all_eq_true.mp hdigits)
  exact ⟨⟨.on, rfl⟩, hnumeral⟩

/-- A key that only starts like a relay command switches a relay off. -/
theorem not_always_conforms :
    ¬ ∀ (w : World) (key val : List UInt8), comma ∉ key → key ≠ ascii "setPingSettings" →
      Conforms w key val := by
  intro h
  have hrefused := (h noSettings (ascii "setDevStatus") (ascii "1") (by decide) (by decide)).refused
  have hundocumented : ∀ act port, ¬ Documented (ascii "setDevStatus") (ascii "1") act port := by
    intro act port hdoc
    have hname := hdoc.name
    revert hname
    cases act <;> decide
  have heffects := hrefused hundocumented
  revert heffects
  decide

section Reply

variable {w : World}

/-- The relay, where there is one, the write and the commit have all succeeded. -/
structure AllSucceeded (effects : List Effect) : Prop where
  relay : ∀ act port rc, .usbSetPort act port rc ∈ effects → rc = 0
  set : ∃ key val, .uciSet key val 0 ∈ effects
  commit : ∃ pkg, .uciCommit pkg 0 ∈ effects

def successNames : List (List UInt8) := [ascii "devon", ascii "devoff", ascii "pingsettings"]

/-- The success reply is printed only after everything has succeeded. -/
def HonestReply (w : World) (key val : List UInt8) : Prop :=
  ∀ name ∈ successNames, .printf (replyText name val) ∈ mainSet w (key ++ comma :: val) →
    AllSucceeded (mainSet w (key ++ comma :: val))

theorem allSucceeded_setDev (req : Request) (val : List UInt8) :
    AllSucceeded (setDev w req val) ↔ w.exchange.Succeeds ∧ w.uciSet = 0 ∧ w.uciCommit = 0 := by
  obtain ⟨lower, upper⟩ := req.inRange
  have hrelay : (UsbDongle.usbSetPort w.exchange req.act req.port).1 = 0 ↔ w.exchange.Succeeds :=
    usbSetPort_eq_zero_iff w.exchange req.act (by exact_mod_cast lower) (by exact_mod_cast upper)
  constructor
  · intro h
    have hzero : (UsbDongle.usbSetPort w.exchange req.act req.port).1 = 0 :=
      h.relay req.act req.port _ List.mem_cons_self
    obtain ⟨key, text, hset⟩ := h.set
    obtain ⟨pkg, hcommit⟩ := h.commit
    simp only [setDev, hzero, if_true] at hset hcommit
    simp only [List.mem_append, List.mem_cons, Effect.uciSet.injEq, Effect.uciCommit.injEq,
      reduceCtorEq, List.not_mem_nil, false_or, or_false] at hset hcommit
    exact ⟨hrelay.mp hzero, hset.2.2.symm, hcommit.2.symm⟩
  · rintro ⟨hexchange, hset, hcommit⟩
    have hzero := hrelay.mpr hexchange
    let mask := newMask req (uciGetInt (w.store.values dongleportKey))
    refine ⟨?_, ⟨dongleportKey, intText mask, ?_⟩, ⟨ascii "system", ?_⟩⟩
    · intro act port rc hmem
      simp only [setDev, hzero, if_true, List.mem_append, List.mem_cons, Effect.usbSetPort.injEq,
        reduceCtorEq, List.not_mem_nil, or_false] at hmem
      exact hmem.2.2
    · simp [setDev, hzero, hset, mask]
    · simp [setDev, hzero, hcommit]

theorem allSucceeded_setPingSettings (val : List UInt8) :
    AllSucceeded (setPingSettings w val) ↔ w.uciSet = 0 ∧ w.uciCommit = 0 := by
  constructor
  · intro h
    obtain ⟨key, text, hset⟩ := h.set
    obtain ⟨pkg, hcommit⟩ := h.commit
    simp only [setPingSettings, List.mem_cons, Effect.uciSet.injEq, Effect.uciCommit.injEq,
      reduceCtorEq, List.not_mem_nil, false_or, or_false] at hset hcommit
    exact ⟨hset.2.2.symm, hcommit.2.symm⟩
  · rintro ⟨hset, hcommit⟩
    refine ⟨?_, ⟨pingsettingsKey, val, ?_⟩, ⟨ascii "system", ?_⟩⟩
    · intro act port rc hmem
      simp [setPingSettings] at hmem
    · simp [setPingSettings, hset]
    · simp [setPingSettings, hcommit]

theorem wrongSettings_ne {name : List UInt8} (hname : name ∈ successNames) (val : List UInt8) :
    wrongSettings ≠ replyText name val := by
  intro h
  have hhead := congrArg List.head? h
  simp only [successNames, List.mem_cons, List.not_mem_nil, or_false] at hname
  rcases hname with rfl | rfl | rfl
  · exact absurd hhead (by simp [wrongSettings, replyText, ascii])
  · exact absurd hhead (by simp [wrongSettings, replyText, ascii])
  · exact absurd hhead (by simp [wrongSettings, replyText, ascii])

theorem replied_setDev (req : Request) (val : List UInt8) :
    ∃ name ∈ successNames, .printf (replyText name val) ∈ setDev w req val := by
  refine ⟨actName req.act, ?_, ?_⟩
  · cases req.act <;> decide
  · simp [setDev]

theorem replied_setPingSettings (val : List UInt8) :
    ∃ name ∈ successNames, .printf (replyText name val) ∈ setPingSettings w val :=
  ⟨ascii "pingsettings", by decide, by simp [setPingSettings]⟩

theorem refused_silent {name : List UInt8} (hname : name ∈ successNames) (val : List UInt8) :
    .printf (replyText name val) ∉ [Effect.printf wrongSettings] := by
  intro hmem
  have htext : replyText name val = wrongSettings := by simpa using hmem
  exact wrongSettings_ne hname val htext.symm

/-- An accepted command is answered with success, so its reply is honest exactly when the exchange,
the write and the commit all succeed. -/
theorem honestReply_iff (w : World) {key : List UInt8} (val : List UInt8) (hkey : comma ∉ key) :
    HonestReply w key val ↔
      (parseSetDev key val ≠ none → w.exchange.Succeeds ∧ w.uciSet = 0 ∧ w.uciCommit = 0) ∧
        (key = ascii "setPingSettings" → w.uciSet = 0 ∧ w.uciCommit = 0) := by
  have hreplied : ∀ effects, (∃ name ∈ successNames, .printf (replyText name val) ∈ effects) →
      ((∀ name ∈ successNames, .printf (replyText name val) ∈ effects → AllSucceeded effects) ↔
        AllSucceeded effects) := by
    rintro effects ⟨name, hname, hprinted⟩
    exact ⟨fun h => h name hname hprinted, fun h _ _ _ => h⟩
  unfold HonestReply
  rw [mainSet_pair w val hkey]
  by_cases hprefix : ascii "setDev" <+: key
  · have hping : key ≠ ascii "setPingSettings" := by
      rintro rfl
      revert hprefix
      decide
    cases hparse : parseSetDev key val with
    | none =>
      simp only [setPair, if_pos hprefix, hparse]
      simp only [ne_eq, not_true_eq_false, false_implies, hping, and_self, iff_true]
      intro name hname hprinted
      exact absurd hprinted (refused_silent hname val)
    | some req =>
      simp only [setPair, if_pos hprefix, hparse]
      rw [hreplied _ (replied_setDev req val), allSucceeded_setDev]
      simp [hping]
  · have hparse : parseSetDev key val = none := by
      rw [parseSetDev, if_neg hprefix]
    by_cases hping : key = ascii "setPingSettings"
    · simp only [setPair, if_neg hprefix, if_pos hping]
      rw [hreplied _ (replied_setPingSettings val), allSucceeded_setPingSettings, hparse]
      simp [hping]
    · simp only [setPair, if_neg hprefix, if_neg hping, hparse]
      simp only [ne_eq, not_true_eq_false, false_implies, hping, and_self, iff_true]
      intro name hname hprinted
      exact absurd hprinted (refused_silent hname val)

end Reply

/-- A dongle that answers in two pieces, and a store that takes the new mask. -/
def answered : World := { noSettings with exchange := exchangeOf inTwoPieces }

theorem honestReply_of_setDevOn :
    .printf (replyText (ascii "devon") (ascii "1")) ∈ mainSet answered (ascii "setDevOn,1") ∧
      HonestReply answered (ascii "setDevOn") (ascii "1") := by
  have hexchange : answered.exchange.Succeeds := ⟨rfl, rfl, rfl, rfl, by decide⟩
  refine ⟨by decide +kernel, ?_⟩
  apply (honestReply_iff answered (ascii "1") (by decide)).mpr
  exact ⟨fun _ => ⟨hexchange, rfl, rfl⟩, fun _ => ⟨rfl, rfl⟩⟩

/-- Without a dongle, the reply is still the one of a success. -/
theorem not_always_honestReply :
    ¬ ∀ (w : World) (key val : List UInt8), comma ∉ key →
      key ∈ [ascii "setDevOn", ascii "setDevOff", ascii "setPingSettings"] →
        HonestReply w key val := by
  intro h
  let unplugged : World := { noSettings with exchange := { silentDongle with found := false } }
  have hreply := h unplugged (ascii "setDevOn") (ascii "1") (by decide) (by decide)
  have hsucceeded := hreply (ascii "devon") (by decide) (by decide)
  exact absurd (hsucceeded.relay .on 1 (-1) (by decide)) (by decide)

end Evi7688.Azurectl.SetCommand
