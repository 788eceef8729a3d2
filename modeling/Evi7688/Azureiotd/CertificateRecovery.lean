/- Evi7688/Azureiotd/CertificateRecovery
   digest: One undisturbed call of dps_generate_certificates, after any history, settles the files for good. -/

import Evi7688.Azureiotd.CertificateHistory

set_option autoImplicit false
set_option relaxedAutoImplicit false

namespace Evi7688.Azureiotd.CertificateRecovery

open Evi7688.Library.CrashProgram
open DpsCertificate
open CertificateHistory (Consistent smooth powerCut)

/-- A call that finds the serial number, keeps its power and whose commands on the files succeed. -/
structure Undisturbed (a : Attempt) : Prop where
  serial : a.serial = true
  powered : ∀ c, a.lost c = false
  succeeds : ∀ c ∈ [Command.genrsa, .req, .ca, .x509, .cat], (a.outcome c).ok = true

section Call

variable {s : Files} (a : Attempt)

theorem run_of_present (present : dpsCheckCertificatesExist s = true) : (a.run s).2 = s := by
  have hends : Ends (fun _ s' => s' = s) (fun s' => s' = s) (a.run s) := by
    unfold Attempt.run dpsGenerateCertificates
    cases a.serial with
    | false => exact (ends_ret_iff _ _).mpr rfl
    | true =>
      rw [if_neg (by simp), if_pos present, ends_ignoring_iff _ _ _ (by simp [Attempt.act, effect])]
      split
      · rfl
      · exact (ends_ret_iff _ _).mpr rfl
  exact hends.state

/-- From any other state, an undisturbed call makes a key and its full chain. -/
theorem run_of_missing (missing : dpsCheckCertificatesExist s = false) (h : Undisturbed a) :
    (a.run s).1 = some 0 ∧ Consistent (a.run s).2 := by
  obtain ⟨hserial, hpowered, hsucceeds⟩ := h
  have hends : Ends (fun rc s' => rc = 0 ∧ Consistent s') (fun _ => False) (a.run s) := by
    unfold Attempt.run dpsGenerateCertificates generate
    rw [hserial, missing, if_neg (by simp), if_neg (by simp),
      ends_ignoring_iff _ _ _ (by simp [Attempt.act, effect]), if_neg (by simp [hpowered]),
      ends_checked_iff _ _ _ _ (by simp), if_pos ⟨hpowered _, hsucceeds _ (by simp)⟩,
      ends_checked_iff _ _ _ _ (by simp), if_pos ⟨hpowered _, hsucceeds _ (by simp)⟩,
      ends_checked_iff _ _ _ _ (by simp), if_pos ⟨hpowered _, hsucceeds _ (by simp)⟩,
      ends_command_iff]
    have hverified : (a.act .x509 (a.act .ca (a.act .req (a.act .genrsa s).2).2).2).1 = true :=
      hsucceeds .x509 (by simp)
    rw [if_neg (by simp [hpowered]), hverified, if_pos rfl, ignoring_cons, ends_command_iff,
      if_neg (by simp [hpowered]), ends_ignoring_iff _ _ _ (by simp [Attempt.act, effect]),
      if_neg (by simp [hpowered]), ends_ret_iff]
    have hgenrsa := hsucceeds .genrsa (by simp)
    have hreq := hsucceeds .req (by simp)
    have hca := hsucceeds .ca (by simp)
    have hcat := hsucceeds .cat (by simp)
    refine ⟨rfl, s.generated, ?_, ?_⟩
    · simp [Attempt.act, effect, hgenrsa]
    · simp [Attempt.act, effect, hgenrsa, hreq, hca, hcat, requestFor, leafFor, fullChain]
  obtain ⟨rc, hrc, rfl, hconsistent⟩ := hends.returns
  exact ⟨hrc, hconsistent⟩

end Call

section History

theorem after_append (events : List Event) (calls : List Attempt) :
    after (events ++ calls.map .call) = calls.foldl (fun s a => (a.run s).2) (after events) := by
  rw [after, List.foldl_append, List.foldl_map]
  rfl

theorem foldl_of_present {s : Files} (present : dpsCheckCertificatesExist s = true)
    (calls : List Attempt) : calls.foldl (fun s a => (a.run s).2) s = s := by
  induction calls with
  | nil => rfl
  | cons a calls ih => rw [List.foldl_cons, run_of_present a present, ih]

theorem present_of_consistent {s : Files} (h : Consistent s) :
    dpsCheckCertificatesExist s = true := by
  obtain ⟨id, hkey, hchain⟩ := h
  simp [dpsCheckCertificatesExist, hkey, hchain]

/-- Whatever failures, losses of power and deletions came before: one undisturbed call leaves key
and chain there, consistent if one of them was missing, and no later call changes them, however it
goes. -/
theorem settled_by_undisturbed (events : List Event) (a : Attempt) (h : Undisturbed a)
    (later : List Attempt) :
    after (events ++ (a :: later).map .call) = (a.run (after events)).2 ∧
      dpsCheckCertificatesExist (a.run (after events)).2 = true ∧
      (dpsCheckCertificatesExist (after events) = false →
        (a.run (after events)).1 = some 0 ∧ Consistent (a.run (after events)).2) := by
  have hmissing := run_of_missing (s := after events) a
  have hpresent : dpsCheckCertificatesExist (a.run (after events)).2 = true := by
    cases hexist : dpsCheckCertificatesExist (after events) with
    | true => rw [run_of_present a hexist, hexist]
    | false => exact present_of_consistent (hmissing hexist h).2
  refine ⟨?_, hpresent, fun hexist => hmissing hexist h⟩
  rw [after_append, List.foldl_cons, foldl_of_present hpresent]

/-- The power is lost before the certificate is issued; the next call makes up for it. -/
theorem settled_after_power_cut :
    after ([.call powerCut] ++ [smooth, powerCut].map .call) =
        (smooth.run (after [.call powerCut])).2 ∧
      dpsCheckCertificatesExist (smooth.run (after [.call powerCut])).2 = true ∧
      (dpsCheckCertificatesExist (after [.call powerCut]) = false →
        (smooth.run (after [.call powerCut])).1 = some 0 ∧
          Consistent (smooth.run (after [.call powerCut])).2) :=
  settled_by_undisturbed [.call powerCut] smooth ⟨rfl, fun _ => rfl, fun _ _ => rfl⟩ [powerCut]

end History

end Evi7688.Azureiotd.CertificateRecovery
