/- Evi7688/Azureiotd/CertificateHistory
   digest: Which histories of calls, failures, power losses and deletions keep key and chain consistent. -/

import Evi7688.Azureiotd.DpsCertificate
import Mathlib.Data.List.Induction

set_option autoImplicit false
set_option relaxedAutoImplicit false

namespace Evi7688.Azureiotd.CertificateHistory

open Evi7688.Library.CrashProgram
open DpsCertificate

/-- Key file and full-chain file are there, the leaf of the chain was issued for the key, and the
chain is complete. -/
def Consistent (s : Files) : Prop :=
  ∃ id, s.key = some [.key id] ∧ s.chain = some [.leaf id, .intermediate, .root]

/-- Whenever a call of the history returns 0, the files are consistent. -/
def AlwaysConsistent (events : List Event) : Prop :=
  ∀ pre a, pre ++ [.call a] <+: events →
    (a.run (after pre)).1 = some 0 → Consistent (a.run (after pre)).2

namespace Attempt

variable (a : Attempt)

/-- A command is reached with the power on, succeeds, and the power stays on. -/
def Passes (c : Command) : Prop := a.lost c = false ∧ (a.outcome c).ok = true

def LostEarly : Prop :=
  ∃ c ∈ [Command.setNetLink, .setAzureBinding, .setKeyChange, .setMqttBinding, .commitPending,
    .makeDirs, .resetIndex], a.lost c = true

def ReachesX509 : Prop :=
  ¬ LostEarly a ∧ Passes a .genrsa ∧ Passes a .req ∧ Passes a .ca ∧ a.lost .x509 = false

def ReachesCat : Prop := ReachesX509 a ∧ (a.outcome .x509).ok = true

/-- The key file stays as it was. -/
def KeyUntouched : Prop :=
  LostEarly a ∨ ((a.outcome .genrsa).ok = false ∧ (a.outcome .genrsa).debris = false)

def Wiped : Prop :=
  ReachesX509 a ∧ (a.outcome .x509).ok = false ∧ (a.outcome .firstboot).ok = true

/-- `cat` succeeds if it is reached, and where there is a chain already it is reached, or the old
key stays, or everything is wiped. -/
def SafeToGenerate (s : Files) : Prop :=
  (ReachesCat a → (a.outcome .cat).ok = true) ∧
    (s.chain.isSome = true → ReachesCat a ∨ KeyUntouched a ∨ Wiped a)

/-- Nothing is asked of a call that generates nothing. -/
def Safe (s : Files) : Prop :=
  a.serial = true → dpsCheckCertificatesExist s = false → SafeToGenerate a s

end Attempt

open Attempt

/-- Both files are there only when they are consistent, and the chain knows no future key. -/
structure Inv (s : Files) : Prop where
  consistent : dpsCheckCertificatesExist s = true → Consistent s
  fresh : ∀ chain, s.chain = some chain → ∀ id, .leaf id ∈ chain → id < s.generated

def CallOk : Option Int × Files → Prop :=
  Ends (fun rc s => (rc = 0 → Consistent s) ∧ Inv s) Inv

section Call

variable {s : Files} (a : Attempt)

theorem inv_of_no_chain {s : Files} (hnone : s.chain = none) : Inv s := by
  constructor
  · intro hboth
    simp [dpsCheckCertificatesExist, hnone] at hboth
  · intro chain hsome
    rw [hnone] at hsome
    cases hsome

theorem inv_key_iff (inv : Inv s) {s' : Files} {block : Pem} (hkey : s'.key = some [block])
    (hchain : s'.chain = s.chain) (hblock : ∀ id, block = .key id → s.generated ≤ id) :
    Inv s' ↔ s.chain.isSome = false := by
  constructor
  · intro inv'
    cases hsome : s.chain with
    | none => rfl
    | some chain =>
      have hboth : dpsCheckCertificatesExist s' = true := by
        simp [dpsCheckCertificatesExist, hkey, hchain, hsome]
      obtain ⟨id, hid, hfull⟩ := inv'.consistent hboth
      rw [hkey] at hid
      rw [hchain] at hfull
      have hle := hblock id (by simpa using hid)
      have hlt := inv.fresh _ hfull id List.mem_cons_self
      omega
  · intro hnone
    apply inv_of_no_chain
    rw [hchain]
    simpa using hnone

theorem le_of_key_generated (s : Files) (id : Nat) (h : Pem.key s.generated = .key id) :
    s.generated ≤ id := by
  cases h
  exact Nat.le_refl _

theorem cutShort_ne (o : Outcome) {full : List Pem} (hfull : full ≠ []) :
    cutShort o full ≠ full := by
  unfold cutShort
  split
  · rename_i h
    simp only [Bool.and_eq_true, decide_eq_true_eq] at h
    exact h.2
  · exact fun h => hfull h.symm

theorem unfinished_iff (inv : Inv s) {s' : Files} {block : Pem} (hkey : s'.key = some [block])
    (hchain : s'.chain = s.chain) (hblock : ∀ id, block = .key id → s.generated ≤ id)
    (hcat : ¬ ReachesCat a) (huntouched : ¬ KeyUntouched a) (hwiped : ¬ Wiped a) :
    SafeToGenerate a s ↔ Inv s' := by
  rw [inv_key_iff inv hkey hchain hblock]
  unfold SafeToGenerate
  simp [hcat, huntouched, hwiped]

theorem post_failure_iff (s : Files) : ((-1 : Int) = 0 → Consistent s) ∧ Inv s ↔ Inv s := by
  simp

theorem inv_of_consistent {s : Files} (hconsistent : Consistent s)
    (hfresh : ∀ id, s.key = some [.key id] → id < s.generated) : Inv s := by
  refine ⟨fun _ => hconsistent, fun chain hchain id hid => ?_⟩
  obtain ⟨known, hkey, hfull⟩ := hconsistent
  rw [hfull, Option.some.injEq] at hchain
  rw [← hchain] at hid
  have heq : id = known := by simpa using hid
  rw [heq]
  exact hfresh known hkey

theorem cat_iff {s' : Files} {id : Nat} (hkey : s'.key = some [.key id])
    (hcert : s'.cert = some [.leaf id]) (hfresh : id < s'.generated) :
    (a.outcome .cat).ok = true ↔
      CallOk (exec a.act a.lost
        (ignoring [.cat, .clearKeyChange, .commitDone, .sync] (.ret 0)) s') := by
  unfold CallOk
  rw [ignoring_cons, ends_command_iff, ends_ignoring_iff _ _ _ (by simp [Attempt.act, effect])]
  have hfull : fullChain s'.cert = [.leaf id, .intermediate, .root] := by
    simp [fullChain, hcert]
  cases hok : (a.outcome .cat).ok with
  | true =>
    have hconsistent : Consistent (a.act .cat s').2 :=
      ⟨id, by simpa [Attempt.act, effect] using hkey, by simp [Attempt.act, effect, hok, hfull]⟩
    have inv : Inv (a.act .cat s').2 := by
      apply inv_of_consistent hconsistent
      intro known hknown
      have heq : id = known := by simpa [Attempt.act, effect, hkey] using hknown
      rw [← heq]
      exact hfresh
    simp [ends_ret_iff, hconsistent, inv]
  | false =>
    have hshort : ¬ Inv (a.act .cat s').2 := by
      intro inv
      obtain ⟨known, hknown, hchain⟩ := inv.consistent
        (by simp [dpsCheckCertificatesExist, Attempt.act, effect, hkey])
      have heq : id = known := by simpa [Attempt.act, effect, hkey] using hknown
      rw [← heq, ← hfull] at hchain
      have hcut : cutShort (a.outcome .cat) (fullChain s'.cert) = fullChain s'.cert := by
        simpa [Attempt.act, effect, hok] using hchain
      apply cutShort_ne _ _ hcut
      simp [hfull]
    simp [ends_ret_iff, hshort]

theorem genrsa_iff (inv : Inv s) (hearly : ¬ LostEarly a) (hgenrsa : ¬ Passes a .genrsa) :
    SafeToGenerate a s ↔ Inv (a.act .genrsa s).2 := by
  have hcat : ¬ ReachesCat a := fun h => hgenrsa h.1.2.1
  have hwiped : ¬ Wiped a := fun h => hgenrsa h.1.2.1
  cases hok : (a.outcome .genrsa).ok with
  | true =>
    have hkey : (a.act .genrsa s).2.key = some [.key s.generated] := by
      simp [Attempt.act, effect, hok]
    have hchain : (a.act .genrsa s).2.chain = s.chain := by
      simp [Attempt.act, effect, hok]
    have huntouched : ¬ KeyUntouched a := by
      simp [KeyUntouched, hearly, hok]
    exact unfinished_iff a inv hkey hchain (le_of_key_generated s) hcat huntouched hwiped
  | false =>
    cases hdebris : (a.outcome .genrsa).debris with
    | true =>
      have hkey : (a.act .genrsa s).2.key = some [.debris] := by
        simp [Attempt.act, effect, hok, spoiled, hdebris]
      have hchain : (a.act .genrsa s).2.chain = s.chain := by
        simp [Attempt.act, effect, hok]
      have huntouched : ¬ KeyUntouched a := by
        simp [KeyUntouched, hearly, hdebris]
      have hblock : ∀ id, Pem.debris = .key id → s.generated ≤ id := by
        intro id hid
        cases hid
      exact unfinished_iff a inv hkey hchain hblock hcat huntouched hwiped
    | false =>
      have hsame : (a.act .genrsa s).2 = s := by
        simp [Attempt.act, effect, hok, spoiled, hdebris]
      have huntouched : KeyUntouched a := .inr ⟨hok, hdebris⟩
      rw [hsame]
      simp [SafeToGenerate, hcat, huntouched, inv]

theorem x509_iff (inv : Inv s) {s' : Files} (hearly : ¬ LostEarly a) (hgenrsa : Passes a .genrsa)
    (hreq : Passes a .req) (hca : Passes a .ca) (hkey : s'.key = some [.key s.generated])
    (hcert : s'.cert = some [.leaf s.generated]) (hchain : s'.chain = s.chain)
    (hgenerated : s.generated < s'.generated) :
    SafeToGenerate a s ↔
      CallOk (exec a.act a.lost (.command .x509 fun ok =>
        if ok then ignoring [.cat, .clearKeyChange, .commitDone, .sync] (.ret 0)
        else ignoring [.firstboot] (.ret (-1))) s') := by
  have huntouched : ¬ KeyUntouched a := by
    simp [KeyUntouched, hearly, hgenrsa.2]
  have hblock := le_of_key_generated s
  have hidle : (a.act .x509 s').2 = s' := rfl
  unfold CallOk
  rw [ends_command_iff, hidle]
  cases hlost : a.lost .x509 with
  | true =>
    have hcat : ¬ ReachesCat a := fun h => by simp [h.1.2.2.2.2] at hlost
    have hwiped : ¬ Wiped a := fun h => by simp [h.1.2.2.2.2] at hlost
    exact unfinished_iff a inv hkey hchain hblock hcat huntouched hwiped
  | false =>
    have hreaches : ReachesX509 a := ⟨hearly, hgenrsa, hreq, hca, hlost⟩
    cases hok : (a.outcome .x509).ok with
    | true =>
      have hcat : ReachesCat a := ⟨hreaches, hok⟩
      have hchained := cat_iff a hkey hcert hgenerated
      simpa [Attempt.act, hok, SafeToGenerate, hcat, CallOk] using hchained
    | false =>
      have hcat : ¬ ReachesCat a := fun h => by simp [h.2] at hok
      have hgiveup : (a.act .x509 s').1 = false := hok
      rw [hgiveup, if_neg (by simp), if_neg (by simp), ignoring_cons, ignoring_nil,
        ends_command_iff, ends_ret_iff, post_failure_iff, ite_self]
      cases hboot : (a.outcome .firstboot).ok with
      | true =>
        have hwiped : Wiped a := ⟨hreaches, hok, hboot⟩
        have hempty : Inv (a.act .firstboot s').2 := by
          apply inv_of_no_chain
          simp [Attempt.act, effect, hboot, Files.none]
        simp [SafeToGenerate, hcat, hwiped, hempty]
      | false =>
        have hwiped : ¬ Wiped a := fun h => by simp [h.2.2] at hboot
        have hkept : (a.act .firstboot s').2 = s' := by
          simp [Attempt.act, effect, hboot]
        rw [hkept]
        exact unfinished_iff a inv hkey hchain hblock hcat huntouched hwiped

theorem generate_iff (inv : Inv s) : SafeToGenerate a s ↔ CallOk (exec a.act a.lost generate s) := by
  unfold generate CallOk
  rw [ends_ignoring_iff _ _ _ (by simp [Attempt.act, effect])]
  split
  · rename_i hearly
    change LostEarly a at hearly
    simp [SafeToGenerate, ReachesCat, ReachesX509, KeyUntouched, hearly, inv]
  rename_i hearly
  change ¬ LostEarly a at hearly
  rw [ends_checked_iff _ _ _ _ post_failure_iff]
  split
  swap
  · rename_i hgenrsa
    exact genrsa_iff a inv hearly hgenrsa
  rename_i hgenrsa
  have huntouched : ¬ KeyUntouched a := by
    have hok : (a.outcome .genrsa).ok = true := hgenrsa.2
    simp [KeyUntouched, hearly, hok]
  have hblock := le_of_key_generated s
  have hnew : (a.act .genrsa s).2
      = { s with key := some [.key s.generated], generated := s.generated + 1 } := by
    have hok : (a.outcome .genrsa).ok = true := hgenrsa.2
    simp [Attempt.act, effect, hok]
  rw [hnew, ends_checked_iff _ _ _ _ post_failure_iff]
  split
  swap
  · rename_i hreq
    have hcat : ¬ ReachesCat a := fun h => hreq h.1.2.2.1
    have hwiped : ¬ Wiped a := fun h => hreq h.1.2.2.1
    exact unfinished_iff a inv rfl rfl hblock hcat huntouched hwiped
  rename_i hreq
  rw [ends_checked_iff _ _ _ _ post_failure_iff]
  split
  swap
  · rename_i hca
    have hcat : ¬ ReachesCat a := fun h => hca h.1.2.2.2.1
    have hwiped : ¬ Wiped a := fun h => hca h.1.2.2.2.1
    exact unfinished_iff a inv rfl rfl hblock hcat huntouched hwiped
  rename_i hca
  have hokReq : (a.outcome .req).ok = true := hreq.2
  have hokCa : (a.outcome .ca).ok = true := hca.2
  refine x509_iff a inv hearly hgenrsa hreq hca rfl ?_ rfl (Nat.lt_succ_self _)
  simp [Attempt.act, effect, hokReq, hokCa, requestFor, leafFor]

theorem safe_iff (inv : Inv s) : Safe a s ↔ CallOk (a.run s) := by
  unfold Safe Attempt.run dpsGenerateCertificates
  cases hserial : a.serial with
  | false => simpa [CallOk, ends_ret_iff] using inv
  | true =>
    cases hpresent : dpsCheckCertificatesExist s with
    | true =>
      have hconsistent := inv.consistent hpresent
      simp only [CallOk]
      rw [if_neg (by simp), if_pos trivial, ends_ignoring_iff _ _ _ (by simp [Attempt.act, effect])]
      split <;> simp [ends_ret_iff, inv, hconsistent]
    | false => simpa using generate_iff a inv

end Call

section History

variable {s : Files}

theorem apply_inv (inv : Inv s) (e : Event) (hsafe : ∀ a, e = .call a → Safe a s) :
    Inv (e.apply s) := by
  cases e with
  | call a =>
    have hends := (safe_iff a inv).mp (hsafe a rfl)
    unfold CallOk Ends at hends
    change Inv (a.run s).2
    cases hrc : (a.run s).1 with
    | none =>
      rw [hrc] at hends
      exact hends
    | some rc =>
      rw [hrc] at hends
      exact hends.2
  | deleteKey =>
    constructor
    · intro hboth
      simp [Event.apply, dpsCheckCertificatesExist] at hboth
    · exact inv.fresh
  | deleteChain => exact inv_of_no_chain rfl

theorem after_inv (events : List Event)
    (hsafe : ∀ pre a, pre ++ [.call a] <+: events → Safe a (after pre)) : Inv (after events) := by
  induction events using List.reverseRecOn with
  | nil => exact inv_of_no_chain rfl
  | append_singleton events e ih =>
    have inv := ih fun pre a hpre => hsafe pre a (hpre.trans (List.prefix_append _ _))
    have happly : after (events ++ [e]) = e.apply (after events) := by
      simp [after]
    rw [happly]
    apply apply_inv inv
    intro a ha
    subst ha
    exact hsafe events a List.prefix_rfl

/-- Every history whose calls are all safe where they are made keeps key and chain consistent. -/
theorem alwaysConsistent_of_safe (events : List Event)
    (hsafe : ∀ pre a, pre ++ [.call a] <+: events → Safe a (after pre)) :
    AlwaysConsistent events := by
  intro pre a hpre hzero
  have inv : Inv (after pre) := by
    apply after_inv
    intro pre' a' hpre'
    exact hsafe pre' a' (hpre'.trans ((List.prefix_append _ _).trans hpre))
  have hends := (safe_iff a inv).mp (hsafe pre a hpre)
  unfold CallOk Ends at hends
  rw [hzero] at hends
  exact hends.1 rfl

def smooth : Attempt := ⟨true, fun _ => ⟨true, false, []⟩, fun _ => false⟩

def powerCut : Attempt := { smooth with lost := fun c => c = .ca }

/-- `cat` finds the disk full after the device certificate. -/
def diskFull : Attempt :=
  { smooth with outcome := fun c => ⟨c ≠ .cat, false, if c = .cat then [.leaf 0] else []⟩ }

theorem smooth_safe (s : Files) : Safe smooth s := by
  intro _ _
  have hearly : ¬ LostEarly smooth := by
    rintro ⟨c, -, hlost⟩
    cases hlost
  have hcat : ReachesCat smooth := ⟨⟨hearly, ⟨rfl, rfl⟩, ⟨rfl, rfl⟩, ⟨rfl, rfl⟩, rfl⟩, rfl⟩
  exact ⟨fun _ => rfl, fun _ => .inl hcat⟩

theorem recovered_alwaysConsistent :
    AlwaysConsistent [.call powerCut, .call smooth, .deleteKey, .call smooth] := by
  apply alwaysConsistent_of_safe
  intro pre a hpre
  cases pre with
  | nil =>
    have ha : a = powerCut := by simpa using hpre
    rw [ha]
    intro _ _
    have hcat : ¬ ReachesCat powerCut := fun h => absurd h.1.2.2.2.1.1 (by decide)
    exact ⟨fun h => absurd h hcat, fun h => by cases h⟩
  | cons e pre =>
    have htail : pre ++ [.call a] <+: [.call smooth, .deleteKey, .call smooth] :=
      (List.cons_prefix_cons.mp hpre).2
    have ha : Event.call a ∈ [.call smooth, .deleteKey, .call smooth] :=
      htail.subset (by simp)
    have hsmooth : a = smooth := by simpa using ha
    rw [hsmooth]
    exact smooth_safe _

/-- A first call whose `cat` fails returns 0 with a chain of one certificate. -/
theorem diskFull_not_alwaysConsistent : ¬ AlwaysConsistent [.call diskFull] := by
  intro h
  obtain ⟨id, -, hchain⟩ := h [] diskFull List.prefix_rfl rfl
  cases hchain

end History

end Evi7688.Azureiotd.CertificateHistory
