/- Evi7688/Libevi/Screens
   digest: The public calls of the caption library, their cache keys, and what a run of calls issues. -/

import Evi7688.Libevi.ChargeRouter

set_option autoImplicit false
set_option relaxedAutoImplicit false

namespace Evi7688.Libevi.Screens

open Evi7688.Library.Bytes (CString CArray)
open Hal
open Caption
open ChargeRouter (U2 chargeScreen keep2 need2_eq_false_iff)

/-- The calls of `evi_caption.h` that show a screen, with their arguments. -/
inductive Screen
  | initial
  | systemLoading
  | info1 (mcuFw socFw : Option CString)
  | info2 (sn prodName : Option CString)
  | info3 (meter maxCurrent : Option CString)
  | info4 (meter2 maxCurrent2 : Option CString)
  | standby (delaytime : Int)
  | preparing
  | authWaiting (sec : Int)
  | plugInWaiting (sec : Int)
  | serverConn
  | serverConnFailed
  | serverConnLost
  | getMValue (item value : Option CString)
  | dispComplete (item value : Option CString)
  deriving DecidableEq

inductive CaptionCall
  | version
  | screen (c : Screen)
  deriving DecidableEq

structure Statics where
  ui : Ui
  u2 : U2

def Statics.powerOn : Statics := ⟨.initial, .initial⟩

def onUi (f : Ui → List HalOp × Ui) (st : Statics) : List HalOp × Statics :=
  ((f st.ui).1, { st with ui := (f st.ui).2 })

def onU2 (f : U2 → List HalOp × U2) (st : Statics) : List HalOp × Statics :=
  ((f st.u2).1, { st with u2 := (f st.u2).2 })

def Screen.call : Screen → Statics → List HalOp × Statics
  | .initial => onUi eviCaptionInitial
  | .systemLoading => onUi eviCaptionSystemLoading
  | .info1 m s => onUi (eviCaptionInfo1 m s)
  | .info2 sn pn => onUi (eviCaptionInfo2 sn pn)
  | .info3 mv mc => onUi (eviCaptionInfo3 mv mc)
  | .info4 m2 c2 => onUi (eviCaptionInfo4 m2 c2)
  | .standby d => onUi (eviCaptionStandby d)
  | .preparing => onU2 ChargeRouter.eviCaptionPreparing
  | .authWaiting s => onU2 (ChargeRouter.eviCaptionAuthWaiting s)
  | .plugInWaiting s => onU2 (ChargeRouter.eviCaptionPlugInWaiting s)
  | .serverConn => onU2 ChargeRouter.eviCaptionServerConn
  | .serverConnFailed => onU2 ChargeRouter.eviCaptionServerConnFailed
  | .serverConnLost => onU2 ChargeRouter.eviCaptionServerConnLost
  | .getMValue a b => onU2 (ChargeRouter.eviCaptionGetMValue a b)
  | .dispComplete a b => onU2 (ChargeRouter.eviCaptionDispComplete a b)

/-- What the call issues when it draws, as it does from power-on. -/
def Screen.drawn (c : Screen) : List HalOp := (c.call .powerOn).1

structure Run where
  statics : Statics
  issued : List HalOp

def Run.powerOn : Run := ⟨.powerOn, []⟩

def Run.screen (r : Run) (c : Screen) : Run :=
  ⟨(c.call r.statics).2, r.issued ++ (c.call r.statics).1⟩

/-- `evi_caption_version` returns a constant and touches nothing. -/
def Run.call (r : Run) : CaptionCall → Run
  | .version => r
  | .screen c => r.screen c

def runScreens (cs : List Screen) : Run := cs.foldl Run.screen .powerOn

def runCalls (calls : List CaptionCall) : Run := calls.foldl Run.call .powerOn

def screensOf (calls : List CaptionCall) : List Screen :=
  calls.filterMap fun
    | .version => none
    | .screen c => some c

theorem runCalls_eq (calls : List CaptionCall) : runCalls calls = runScreens (screensOf calls) := by
  have fold : ∀ r : Run, calls.foldl Run.call r = (screensOf calls).foldl Run.screen r := by
    induction calls with
    | nil => exact fun r => rfl
    | cons call calls ih =>
      intro r
      cases call with
      | version => exact ih r
      | screen c => exact ih (r.screen c)
  exact fold .powerOn

theorem runScreens_snoc (cs : List Screen) (c : Screen) :
    runScreens (cs ++ [c]) = (runScreens cs).screen c := by
  simp [runScreens]

structure Key where
  id : Caption.Scn ⊕ ChargeRouter.Scn
  a : Option CString
  b : Option CString
  extra : Int

structure Entry where
  id : Caption.Scn ⊕ ChargeRouter.Scn
  a : CString
  b : CString
  extra : Int
  deriving DecidableEq

inductive Cache
  | ui | u2
  deriving DecidableEq

def Key.cache (k : Key) : Cache :=
  match k.id with
  | .inl _ => .ui
  | .inr _ => .u2

/-- The arrays keep 47 bytes of each argument. -/
def Key.stored (k : Key) : Entry :=
  ⟨k.id, (k.a.getD .empty).truncate 47, (k.b.getD .empty).truncate 47, k.extra⟩

/-- The lookup succeeds: null pointers never match. -/
def Key.Hits (k : Key) (e : Entry) : Prop :=
  k.id = e.id ∧ k.a = some e.a ∧ k.b = some e.b ∧ k.extra = e.extra

instance (k : Key) (e : Entry) : Decidable (k.Hits e) :=
  inferInstanceAs (Decidable (_ ∧ _ ∧ _ ∧ _))

def Screen.key : Screen → Key
  | .initial => ⟨.inl .initial, none, none, 0⟩
  | .systemLoading => ⟨.inl .sysload, none, none, 0⟩
  | .info1 m s => ⟨.inl .info1, m, s, 0⟩
  | .info2 sn pn => ⟨.inl .info2, sn, pn, 0⟩
  | .info3 mv mc => ⟨.inl .info3, mv, mc, 0⟩
  | .info4 m2 c2 => ⟨.inl .info4, m2, c2, 0⟩
  | .standby d => ⟨.inl .standby, none, none, d⟩
  | .preparing => ⟨.inr .prep, none, none, 0⟩
  | .authWaiting s => ⟨.inr (if s.tmod 2 = 0 then .authZh else .authEn), none, none, 0⟩
  | .plugInWaiting s => ⟨.inr (if s.tmod 2 = 0 then .pluginZh else .pluginEn), none, none, 0⟩
  | .serverConn => ⟨.inr .srvConn, none, none, 0⟩
  | .serverConnFailed => ⟨.inr .srvFail, none, none, 0⟩
  | .serverConnLost => ⟨.inr .srvLost, none, none, 0⟩
  | .getMValue a b => ⟨.inr .mval, a, b, 0⟩
  | .dispComplete a b => ⟨.inr .done, a, b, 0⟩

def Statics.entry (st : Statics) : Cache → Option Entry
  | .ui =>
    if st.ui.inited then some ⟨.inl st.ui.id, st.ui.a.toCString, st.ui.b.toCString, st.ui.extra⟩
    else none
  | .u2 =>
    if st.u2.id = .zero then none
    else some ⟨.inr st.u2.id, st.u2.a.toCString, st.u2.b.toCString, 0⟩

def Statics.Holds (st : Statics) (k : Key) : Prop := ∃ e, st.entry k.cache = some e ∧ k.Hits e

/-- Every call is one of the two shapes, at its own key. -/
def shaped (k : Key) (body : List HalOp) (st : Statics) : List HalOp × Statics :=
  match k.id with
  | .inl id => onUi (captionScreen id k.a k.b k.extra body) st
  | .inr id => onU2 (chargeScreen id k.a k.b body) st

theorem Screen.call_shaped (c : Screen) :
    ∃ body, .writeInstr displayClear ∉ body ∧ ∀ st, c.call st = shaped c.key body st := by
  cases c <;> refine ⟨_, ?_, fun _ => rfl⟩
  case standby d => split_ifs <;> simp [big5, letters]
  case authWaiting s => split_ifs <;> decide
  case plugInWaiting s => split_ifs <;> decide
  case info1 | info2 | info3 | info4 => simp [letters, argument]
  all_goals decide

/-- Keys of charging screens carry no extra number, and no key is the initial identifier. -/
def Key.Proper (k : Key) : Prop := ∀ id, k.id = .inr id → id ≠ .zero ∧ k.extra = 0

theorem Screen.key_proper (c : Screen) : c.key.Proper := by
  intro id h
  cases c <;> simp only [Screen.key, reduceCtorEq, Sum.inr.injEq] at h <;> subst h <;>
    refine ⟨?_, rfl⟩ <;> first | exact ChargeRouter.Scn.noConfusion | (split_ifs <;> simp)

theorem holds_caption_iff (st : Statics) {id : Caption.Scn} {a b : Option CString} {e : Int} :
    st.Holds ⟨.inl id, a, b, e⟩ ↔ st.ui.Hit id a b e := by
  simp only [Statics.Holds, Key.cache, Statics.entry, Key.Hits, Ui.Hit]
  constructor
  · rintro ⟨entry, hentry, hid, ha, hb, he⟩
    split_ifs at hentry with hinited
    obtain rfl := Option.some.inj hentry
    exact ⟨hinited, (Sum.inl.inj hid).symm, ha, hb, he.symm⟩
  · rintro ⟨hinited, hid, ha, hb, he⟩
    exact ⟨_, if_pos hinited, congrArg _ hid.symm, ha, hb, he.symm⟩

theorem holds_charge_iff (st : Statics) {id : ChargeRouter.Scn} {a b : Option CString}
    (hid : id ≠ .zero) : st.Holds ⟨.inr id, a, b, 0⟩ ↔ st.u2.Hit id a b := by
  simp only [Statics.Holds, Key.cache, Statics.entry, Key.Hits, U2.Hit]
  constructor
  · rintro ⟨entry, hentry, hid, ha, hb, -⟩
    split_ifs at hentry with hzero
    obtain rfl := Option.some.inj hentry
    exact ⟨(Sum.inr.inj hid).symm, ha, hb⟩
  · rintro ⟨rfl, ha, hb⟩
    exact ⟨_, if_neg hid, rfl, ha, hb, rfl⟩

theorem shaped_of_holds {st : Statics} {k : Key} (proper : k.Proper) (body : List HalOp)
    (h : st.Holds k) : shaped k body st = ([], st) := by
  obtain ⟨id, a, b, e⟩ := k
  cases id with
  | inl id =>
    have hhit := (holds_caption_iff st).mp h
    simp only [shaped, onUi, captionScreen_of_hit body hhit]
  | inr id =>
    obtain ⟨hid, rfl⟩ := proper id rfl
    have hhit := (holds_charge_iff st hid).mp h
    have hneed := (need2_eq_false_iff st.u2 id a b).mpr hhit
    simp only [shaped, onU2, chargeScreen, hneed]
    rfl

/-- The state after a call, drawn or not: the key of the call is in the cache of its module. -/
def Statics.store (st : Statics) (k : Key) : Statics :=
  match k.id with
  | .inl id => { st with ui := Ui.stored id k.a k.b k.extra }
  | .inr id => { st with u2 := keep2 id k.a k.b }

theorem shaped_of_not_holds {st : Statics} {k : Key} (proper : k.Proper) (body : List HalOp)
    (h : ¬ st.Holds k) : shaped k body st = (begin ++ body, st.store k) := by
  obtain ⟨id, a, b, e⟩ := k
  cases id with
  | inl id =>
    have hmiss := mt (holds_caption_iff st).mpr h
    simp only [shaped, onUi, captionScreen_of_miss body hmiss, Statics.store]
  | inr id =>
    obtain ⟨hid, rfl⟩ := proper id rfl
    have hmiss := mt (holds_charge_iff st hid).mpr h
    have hneed : ChargeRouter.need2 id a b st.u2 = true := by
      simpa using mt (need2_eq_false_iff st.u2 id a b).mp hmiss
    simp only [shaped, onU2, chargeScreen, hneed, Statics.store]
    rfl

theorem not_holds_powerOn (k : Key) : ¬ Statics.powerOn.Holds k := by
  rintro ⟨e, hentry, -⟩
  cases hcache : k.cache <;> rw [hcache] at hentry <;> cases hentry

theorem Screen.call_of_holds {c : Screen} {st : Statics} (h : st.Holds c.key) :
    c.call st = ([], st) := by
  obtain ⟨body, -, hbody⟩ := c.call_shaped
  rw [hbody, shaped_of_holds c.key_proper body h]

theorem Screen.call_of_not_holds {c : Screen} {st : Statics} (h : ¬ st.Holds c.key) :
    c.call st = (c.drawn, st.store c.key) := by
  obtain ⟨body, -, hbody⟩ := c.call_shaped
  rw [Screen.drawn, hbody, hbody, shaped_of_not_holds c.key_proper body h,
    shaped_of_not_holds c.key_proper body (not_holds_powerOn _)]

theorem Screen.drawn_eq (c : Screen) :
    ∃ body, .writeInstr displayClear ∉ body ∧ c.drawn = begin ++ body := by
  obtain ⟨body, hclear, hbody⟩ := c.call_shaped
  refine ⟨body, hclear, ?_⟩
  rw [Screen.drawn, hbody, shaped_of_not_holds c.key_proper body (not_holds_powerOn _)]

theorem entry_store (st : Statics) {k : Key} (proper : k.Proper) (cache : Cache) :
    (st.store k).entry cache = if cache = k.cache then some k.stored else st.entry cache := by
  obtain ⟨id, a, b, e⟩ := k
  cases id with
  | inl id => cases cache <;> rfl
  | inr id =>
    obtain ⟨hid, rfl⟩ := proper id rfl
    cases cache with
    | ui => rfl
    | u2 => exact if_neg hid

theorem store_of_holds {st : Statics} {k : Key} (proper : k.Proper) (h : st.Holds k) :
    st.store k = st := by
  obtain ⟨id, a, b, e⟩ := k
  cases id with
  | inl id =>
    have hstored := ((holds_caption_iff st).mp h).stored
    simp only [Statics.store, ← hstored]
  | inr id =>
    obtain ⟨hid, rfl⟩ := proper id rfl
    have hstored := ((holds_charge_iff st hid).mp h).stored
    simp only [Statics.store, ← hstored]

theorem Screen.entry_call (c : Screen) (st : Statics) (cache : Cache) :
    (c.call st).2.entry cache =
      if cache = c.key.cache then some c.key.stored else st.entry cache := by
  have hstore : (c.call st).2 = st.store c.key := by
    by_cases h : st.Holds c.key
    · rw [c.call_of_holds h, store_of_holds c.key_proper h]
    · rw [c.call_of_not_holds h]
  rw [hstore, entry_store st c.key_proper]

end Evi7688.Libevi.Screens
