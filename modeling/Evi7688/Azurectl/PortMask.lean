/- Evi7688/Azurectl/PortMask
   digest: The port mask over a sequence of relay commands, and what `getUsbDongle` prints of it. -/

import Evi7688.Azurectl.Dongleport
import Evi7688.Azurectl.SetCommand

set_option autoImplicit false
set_option relaxedAutoImplicit false

namespace Evi7688.Azurectl.PortMask

open Evi7688.Library.Bytes (ascii snprintf)
open Evi7688.Library.Numerals
open Uci
open Main (Act Request dongleportKey newMask parseSetDev)
open UsbDongle (Exchange)
open SetCommand
open Dongleport

def usbdongleKey : List UInt8 := ascii "system.@system[0].usbdongle"

def bitText (b : Bool) : List UInt8 := if b then ascii "1" else ascii "0"

def bitsText (bit : Nat → Bool) : List UInt8 :=
  bitText (bit 0) ++ ascii "," ++ bitText (bit 1) ++ ascii "," ++ bitText (bit 2) ++ ascii "," ++
    bitText (bit 3)

def maskBit (mask : Int) (k : Nat) : Bool := (BitVec.ofInt 32 mask).getLsbD k

def formatDongleportBits (mask : Int) : List UInt8 := snprintf 32 (bitsText (maskBit mask))

def unknownBits : List UInt8 := ascii "-1,-1,-1,-1"

/-- The `getUsbDongle` branch of `main`. -/
def getUsbDongle (st : UciStore) : List UInt8 :=
  let ud := uciGetInt (st.values usbdongleKey)
  let dp := uciGetInt (st.values dongleportKey)
  if ud < 0 then ascii "usbdongle,0,-1,-1,-1,-1\n"
  else if 0 ≤ dp then
    ascii "usbdongle," ++ decimal ud ++ ascii "," ++ formatDongleportBits dp ++ ascii "\n"
  else ascii "usbdongle," ++ decimal ud ++ ascii "," ++ unknownBits ++ ascii "\n"

/-- One command with a port in range, what the dongle did, and the status of the commit. -/
structure Invocation where
  req : Request
  exchange : Exchange
  commit : Int

def Invocation.argument (inv : Invocation) : List UInt8 :=
  setName inv.req.act ++ comma :: decimalNat inv.req.port

def Invocation.rc (inv : Invocation) : Int :=
  (UsbDongle.usbSetPort inv.exchange inv.req.act inv.req.port).1

/-- What a call leaves in the store: a written value is the one read from then on. -/
def applyEffect (st : UciStore) : Effect → UciStore
  | .uciSet key val rc =>
    if rc = 0 then { st with values := Function.update st.values key (some val) } else st
  | .uciCommit _ rc => if rc = 0 then uciCommit st else st
  | _ => st

def invoke (st : UciStore) (inv : Invocation) : UciStore :=
  (mainSet ⟨st, inv.exchange, 0, inv.commit⟩ inv.argument).foldl applyEffect st

def runAll (st : UciStore) (invs : List Invocation) : UciStore := invs.foldl invoke st

/-- The action of the last command for a port that switched its relay. -/
def lastSuccess (invs : List Invocation) (port : Nat) : Option Act :=
  (invs.filter fun inv => inv.rc = 0 ∧ inv.req.port = port).getLast?.map fun inv => inv.req.act

def NoSuccess (invs : List Invocation) : Prop := ∀ inv ∈ invs, inv.rc ≠ 0

instance (invs : List Invocation) : Decidable (NoSuccess invs) :=
  inferInstanceAs (Decidable (∀ inv ∈ invs, inv.rc ≠ 0))

/-- The bit of port `k + 1` as the history of the commands has it. -/
def historyBit (st : UciStore) (invs : List Invocation) (k : Nat) : Bool :=
  match lastSuccess invs (k + 1) with
  | some act => decide (act = .on)
  | none =>
    decide (0 ≤ uciGetInt (st.values dongleportKey)) &&
      maskBit (uciGetInt (st.values dongleportKey)) k

/-- The bits printed after the commands are those of the history. -/
def Shown (st : UciStore) (invs : List Invocation) : Prop :=
  getUsbDongle (runAll st invs) =
    ascii "usbdongle," ++ decimal (uciGetInt (st.values usbdongleKey)) ++ ascii "," ++
      (if NoSuccess invs ∧ uciGetInt (st.values dongleportKey) < 0 then unknownBits
      else bitsText (historyBit st invs)) ++ ascii "\n"

def storedBit (st : UciStore) (k : Nat) : Bool := maskBit (uciGetInt (st.values dongleportKey)) k

def HighBitsKept (st : UciStore) (invs : List Invocation) : Prop :=
  ∀ k, 4 ≤ k → storedBit (runAll st invs) k = storedBit st k

section Commands

theorem parseSetDev_argument (req : Request) :
    parseSetDev (setName req.act) (decimalNat req.port) = some req := by
  obtain ⟨lower, upper⟩ := req.inRange
  have hnumeral : Numeral (decimalNat req.port) req.port := by
    have h := Numeral.decimal (decimalNat_ne_nil req.port) (decimalNat_isDigit req.port)
    rwa [digitsValue_decimalNat] at h
  have hport := hnumeral.portOf_eq lower upper
  have hact : (if (setName req.act).drop 6 = ascii "On" then Act.on else Act.off) = req.act := by
    cases req.act <;> rfl
  rw [parseSetDev_eq_some (setName_starts req.act) (by omega) (by omega)]
  simp only [hact, hport, Int.toNat_natCast]

theorem comma_notMem_setName (act : Act) : comma ∉ setName act := by
  cases act <;> decide

theorem mainSet_argument (w : World) (inv : Invocation) :
    mainSet w inv.argument = setDev w inv.req (decimalNat inv.req.port) := by
  rw [Invocation.argument, mainSet_pair w _ (comma_notMem_setName _), setPair,
    if_pos (setName_starts _), parseSetDev_argument]

theorem invoke_values (st : UciStore) (inv : Invocation) :
    (invoke st inv).values =
      if inv.rc = 0 then
        Function.update st.values dongleportKey
          (some (intText (newMask inv.req (uciGetInt (st.values dongleportKey)))))
      else st.values := by
  have hcommit : ∀ st' : UciStore,
      (if inv.commit = 0 then uciCommit st' else st').values = st'.values := by
    intro st'
    split_ifs <;> rfl
  rw [invoke, mainSet_argument]
  by_cases hrc : inv.rc = 0
  · have hzero : (UsbDongle.usbSetPort inv.exchange inv.req.act inv.req.port).1 = 0 := hrc
    simp only [setDev, hzero, if_true, List.cons_append, List.nil_append, List.foldl_cons,
      List.foldl_nil, applyEffect, hcommit, hrc]
  · have hfails : (UsbDongle.usbSetPort inv.exchange inv.req.act inv.req.port).1 ≠ 0 := hrc
    simp only [setDev, hfails, if_false, List.cons_append, List.nil_append, List.foldl_cons,
      List.foldl_nil, applyEffect, hrc]

/-- A process of the shell-step model that runs alone leaves the same values. -/
theorem run_alone_values (st : UciStore) (inv : Invocation) :
    (Main.run (fun _ => inv.rc) (fun _ => inv.req) st (List.replicate 4 true)).store.values =
      (invoke st inv).values := by
  rw [invoke_values]
  by_cases hrc : inv.rc = 0
  · simp [Main.run, Main.step, Main.System.goto, List.replicate, hrc, uciSetInt, uciCommit]
  · simp [Main.run, Main.step, Main.System.goto, List.replicate, hrc]

end Commands

section Histories

variable (st : UciStore) (invs : List Invocation) (inv : Invocation)

theorem runAll_snoc : runAll st (invs ++ [inv]) = invoke (runAll st invs) inv := by
  simp [runAll]

theorem noSuccess_snoc : NoSuccess (invs ++ [inv]) ↔ NoSuccess invs ∧ inv.rc ≠ 0 := by
  simp [NoSuccess, or_imp, forall_and]

theorem lastSuccess_snoc (port : Nat) :
    lastSuccess (invs ++ [inv]) port =
      if inv.rc = 0 ∧ inv.req.port = port then some inv.req.act else lastSuccess invs port := by
  unfold lastSuccess
  rw [List.filter_append, List.filter_singleton]
  split_ifs with h
  · simp [h]
  · simp [h]

theorem usbdongle_runAll :
    (runAll st invs).values usbdongleKey = st.values usbdongleKey := by
  induction invs using List.reverseRecOn with
  | nil => rfl
  | append_singleton invs inv ih =>
    rw [runAll_snoc, invoke_values]
    split_ifs
    · rw [Function.update_of_ne (by decide), ih]
    · exact ih

theorem dongleport_of_noSuccess (h : NoSuccess invs) :
    (runAll st invs).values dongleportKey = st.values dongleportKey := by
  induction invs using List.reverseRecOn with
  | nil => rfl
  | append_singleton invs inv ih =>
    obtain ⟨hbefore, hrc⟩ := (noSuccess_snoc invs inv).mp h
    rw [runAll_snoc, invoke_values, if_neg hrc]
    exact ih hbefore

/-- The mask is negative only as long as it was so at the start and nothing succeeded. -/
theorem mask_neg_iff :
    uciGetInt ((runAll st invs).values dongleportKey) < 0 ↔
      NoSuccess invs ∧ uciGetInt (st.values dongleportKey) < 0 := by
  induction invs using List.reverseRecOn with
  | nil => simp [runAll, NoSuccess]
  | append_singleton invs inv ih =>
    rw [runAll_snoc, invoke_values, noSuccess_snoc]
    by_cases hrc : inv.rc = 0
    · have hnonneg := applied_nonneg inv.req ((runAll st invs).values dongleportKey)
      rw [if_pos hrc, Function.update_self, uciGetInt_newMask]
      constructor
      · intro hneg
        omega
      · exact fun h => absurd hrc h.1.2
    · rw [if_neg hrc, ih]
      constructor
      · exact fun h => ⟨⟨h.1, hrc⟩, h.2⟩
      · exact fun h => ⟨h.1.1, h.2⟩

theorem getLsbD_portBits (value : Option (List UInt8)) (k : Nat) :
    (portBits value).getLsbD k =
      (decide (0 ≤ uciGetInt value) && maskBit (uciGetInt value) k) := by
  unfold portBits maskBit
  by_cases hneg : uciGetInt value < 0
  · simp [hneg]
  · simp [hneg, show 0 ≤ uciGetInt value by omega]

theorem historyBit_snoc (k : Nat) :
    historyBit st (invs ++ [inv]) k =
      if inv.rc = 0 ∧ inv.req.port = k + 1 then decide (inv.req.act = .on)
      else historyBit st invs k := by
  rw [historyBit, lastSuccess_snoc]
  split_ifs <;> rfl

theorem portBits_runAll (k : Nat) :
    (portBits ((runAll st invs).values dongleportKey)).getLsbD k = historyBit st invs k := by
  induction invs using List.reverseRecOn with
  | nil => exact getLsbD_portBits _ k
  | append_singleton invs inv ih =>
    rw [runAll_snoc, invoke_values, historyBit_snoc]
    by_cases hrc : inv.rc = 0
    · rw [if_pos hrc, Function.update_self, portBits_newMask, getLsbD_applied, ih]
      simp only [hrc, true_and, eq_comm]
    · rw [if_neg hrc, if_neg fun h => hrc h.1, ih]

end Histories

section Printed

variable (st : UciStore) (invs : List Invocation)

theorem lastSuccess_high {port : Nat} (h : 4 < port) : lastSuccess invs port = none := by
  have hnone : (invs.filter fun inv => inv.rc = 0 ∧ inv.req.port = port) = [] := by
    apply List.filter_eq_nil_iff.mpr
    intro inv _ hport
    have hrange := inv.req.inRange.2
    have hwanted : inv.req.port = port := (of_decide_eq_true hport).2
    omega
  rw [lastSuccess, hnone]
  rfl

theorem formatDongleportBits_eq (mask : Int) :
    formatDongleportBits mask = bitsText (maskBit mask) := by
  have hbit : ∀ b, (bitText b).length = 1 := by
    intro b
    cases b <;> rfl
  have hcomma : (ascii ",").length = 1 := rfl
  apply Evi7688.Library.Bytes.snprintf_eq_self
  simp only [bitsText, List.length_append, hbit, hcomma]
  decide

theorem maskBit_runAll (k : Nat)
    (h : 0 ≤ uciGetInt ((runAll st invs).values dongleportKey)) :
    storedBit (runAll st invs) k = historyBit st invs k := by
  rw [← portBits_runAll, getLsbD_portBits, storedBit]
  simp [h]

theorem shown (hud : 0 ≤ uciGetInt (st.values usbdongleKey)) : Shown st invs := by
  have hneg := mask_neg_iff st invs
  unfold Shown getUsbDongle
  simp only [usbdongle_runAll]
  rw [if_neg (by omega)]
  by_cases hmask : 0 ≤ uciGetInt ((runAll st invs).values dongleportKey)
  · have hbits : maskBit (uciGetInt ((runAll st invs).values dongleportKey)) =
        historyBit st invs := by
      funext k
      exact maskBit_runAll st invs k hmask
    rw [if_pos hmask, if_neg fun h => absurd (hneg.mpr h) (by omega), formatDongleportBits_eq,
      hbits]
  · rw [if_neg hmask, if_pos (hneg.mp (by omega))]

theorem storedBit_high {k : Nat} (hk : 4 ≤ k) (hsome : ¬ NoSuccess invs) :
    storedBit (runAll st invs) k =
      (decide (0 ≤ uciGetInt (st.values dongleportKey)) && storedBit st k) := by
  have hnonneg : 0 ≤ uciGetInt ((runAll st invs).values dongleportKey) := by
    by_contra hneg
    exact hsome ((mask_neg_iff st invs).mp (by omega)).1
  rw [maskBit_runAll st invs k hnonneg, historyBit, lastSuccess_high invs (by omega)]
  rfl

theorem highBitsKept (h : NoSuccess invs ∨ 0 ≤ uciGetInt (st.values dongleportKey)) :
    HighBitsKept st invs := by
  intro k hk
  by_cases hnone : NoSuccess invs
  · rw [storedBit, dongleport_of_noSuccess st invs hnone, storedBit]
  · rw [storedBit_high st invs hk hnone, decide_eq_true (h.resolve_left hnone), Bool.true_and]

end Printed

/-- The printed bits are those of the history. The bits above the ports stay as they are, unless
the mask was missing or negative: then the first success leaves none. -/
theorem shown_and_high (st : UciStore) (invs : List Invocation)
    (hud : 0 ≤ uciGetInt (st.values usbdongleKey)) :
    Shown st invs ∧
      (0 ≤ uciGetInt (st.values dongleportKey) → HighBitsKept st invs) ∧
      (uciGetInt (st.values dongleportKey) < 0 →
        if NoSuccess invs then HighBitsKept st invs
        else ∀ k, 4 ≤ k → storedBit (runAll st invs) k = false) := by
  refine ⟨shown st invs hud, fun h => highBitsKept st invs (Or.inr h), fun hneg => ?_⟩
  split_ifs with hnone
  · exact highBitsKept st invs (Or.inl hnone)
  · intro k hk
    have hempty : decide (0 ≤ uciGetInt (st.values dongleportKey)) = false :=
      decide_eq_false (by omega)
    rw [storedBit_high st invs hk hnone, hempty, Bool.false_and]

def workingDongle : Exchange := ⟨true, true, 4, 1, fun _ => ascii "1234567890"⟩

theorem one_inRange : 1 ≤ 1 ∧ 1 ≤ 4 := by decide

theorem two_inRange : 1 ≤ 2 ∧ 2 ≤ 4 := by decide

theorem three_inRange : 1 ≤ 3 ∧ 3 ≤ 4 := by decide

theorem four_inRange : 1 ≤ 4 ∧ 4 ≤ 4 := by decide

def firstOn : Invocation := ⟨⟨.on, 1, one_inRange⟩, workingDongle, 0⟩

def thirdOnSilent : Invocation := ⟨⟨.on, 3, three_inRange⟩, silentDongle, 0⟩

/-- Ports 1, 2 and 4 are switched on, the second with a commit that fails, port 1 is switched off
again, and the dongle does not answer for port 3. -/
def mixed : List Invocation :=
  [firstOn, thirdOnSilent, ⟨⟨.on, 2, two_inRange⟩, workingDongle, 1⟩,
    ⟨⟨.off, 1, one_inRange⟩, workingDongle, 0⟩, ⟨⟨.on, 4, four_inRange⟩, workingDongle, 0⟩]

/-- One dongle, and the mask as given. -/
def storeWith (mask : List UInt8) : UciStore :=
  ⟨Function.update (fun _ => some (ascii "1")) dongleportKey (some mask), fun _ => none⟩

theorem shown_mixed :
    (Shown (storeWith (ascii "24")) mixed ∧ HighBitsKept (storeWith (ascii "24")) mixed ∧
      getUsbDongle (runAll (storeWith (ascii "24")) mixed) = ascii "usbdongle,1,0,1,0,1\n" ∧
      storedBit (storeWith (ascii "24")) 4 = true) ∧
    (Shown (storeWith (ascii "-16")) mixed ∧
      ∀ k, 4 ≤ k → storedBit (runAll (storeWith (ascii "-16")) mixed) k = false) ∧
    (Shown (storeWith (ascii "-16")) [thirdOnSilent] ∧
      HighBitsKept (storeWith (ascii "-16")) [thirdOnSilent]) := by
  obtain ⟨hshown, hkept, -⟩ := shown_and_high (storeWith (ascii "24")) mixed (by decide)
  obtain ⟨hshown', -, hcleared⟩ := shown_and_high (storeWith (ascii "-16")) mixed (by decide)
  obtain ⟨hunknown, -, hsame⟩ :=
    shown_and_high (storeWith (ascii "-16")) [thirdOnSilent] (by decide)
  have hsome : ¬ NoSuccess mixed := by decide +kernel
  have hnone : NoSuccess [thirdOnSilent] := by decide +kernel
  rw [if_neg hsome] at hcleared
  rw [if_pos hnone] at hsame
  exact ⟨⟨hshown, hkept (by decide), by decide +kernel, by decide +kernel⟩,
    ⟨hshown', hcleared (by decide)⟩, hunknown, hsame (by decide)⟩

/-- The high bits of a stored `-16` do not survive the first success. -/
theorem not_always_highBitsKept :
    ¬ ∀ (st : UciStore) (invs : List Invocation), 0 ≤ uciGetInt (st.values usbdongleKey) →
      Shown st invs ∧ HighBitsKept st invs := by
  intro h
  have hkept := (h (storeWith (ascii "-16")) [firstOn] (by decide)).2 4 (by decide)
  revert hkept
  decide +kernel

end Evi7688.Azurectl.PortMask
