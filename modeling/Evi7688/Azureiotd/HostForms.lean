/- Evi7688/Azureiotd/HostForms
   digest: The URLs and hosts with a port that a host name is cut out of. -/

import Evi7688.Azureiotd.SafeStr

set_option autoImplicit false
set_option relaxedAutoImplicit false

namespace Evi7688.Azureiotd.HostForms

open Evi7688.Library.Bytes
open SafeStr

/-- An input `[scheme ://] host [: port] [rest]`. -/
structure HostForm where
  scheme : Option (List UInt8)
  host : List UInt8
  port : Option (List UInt8)
  rest : List UInt8
  schemeName : ∀ s ∈ scheme, s ≠ [] ∧ (0 : UInt8) ∉ s ∧ ∀ b ∈ cuts, b ∉ s
  hostName : host ≠ [] ∧ (0 : UInt8) ∉ host ∧ ∀ b ∈ cuts, b ∉ host
  portDigits : ∀ p ∈ port, p ≠ [] ∧ ∀ b ∈ p, 0x30 ≤ b ∧ b ≤ 0x39
  restStarts : ∀ b ∈ rest.head?, b ∈ ascii "/?#"
  restNulFree : (0 : UInt8) ∉ rest

/-- The host with everything that follows it. -/
def HostForm.authority (form : HostForm) : List UInt8 :=
  form.host ++ (form.port.elim [] (fun p => 0x3A :: p) ++ form.rest)

def HostForm.text (form : HostForm) : List UInt8 :=
  form.scheme.elim [] (fun s => s ++ schemeMark) ++ form.authority

/-- A copy of at most `room` bytes of the text is the host again, or goes on with a cut. -/
def CutsTo (host text : List UInt8) (room : Nat) : Prop :=
  ∃ z, text.take room = host ++ z ∧ ∀ b ∈ z.head?, b ∈ cuts

section Search

theorem strstr_append_of_notMem {c : UInt8} {needle p : List UInt8} (h : c ∉ p)
    (text : List UInt8) : strstr (c :: needle) (p ++ text) = strstr (c :: needle) text := by
  induction p with
  | nil => rfl
  | cons b p ih =>
    rw [List.mem_cons, not_or] at h
    have hother : ¬ c :: needle <+: b :: (p ++ text) := by
      intro hstarts
      exact h.1 (List.cons_prefix_cons.mp hstarts).1
    rw [List.cons_append, strstr, if_neg hother, ih h.2]

theorem strstr_schemeMark_append {p : List UInt8} (h : 0x3A ∉ p) (text : List UInt8) :
    strstr schemeMark (p ++ text) = strstr schemeMark text := by
  have hmark : schemeMark = 0x3A :: ascii "//" := rfl
  rw [hmark]
  exact strstr_append_of_notMem h text

theorem strstr_append_self (needle text : List UInt8) :
    strstr needle (needle ++ text) = some (needle ++ text) := by
  cases h : needle ++ text with
  | nil =>
    rw [strstr, if_pos (List.append_eq_nil_iff.mp h).1]
  | cons b rest =>
    rw [strstr, if_pos (h ▸ List.prefix_append needle text)]

theorem chopAtFirst_eq_iff {cutset host s : List UInt8} (clean : ∀ b ∈ cutset, b ∉ host) :
    chopAtFirst cutset s = host ↔ ∃ z, s = host ++ z ∧ ∀ b ∈ z.head?, b ∈ cutset := by
  constructor
  · rintro rfl
    refine ⟨s.dropWhile fun b => !cutset.contains b, (List.takeWhile_append_dropWhile).symm, ?_⟩
    intro b hb
    have hstop := List.head?_dropWhile_not (fun b => !cutset.contains b) s
    rw [Option.mem_def.mp hb] at hstop
    simpa using hstop
  · rintro ⟨z, rfl, hz⟩
    have hkept : ∀ b ∈ host, (!cutset.contains b) = true := by
      intro b hb
      rw [Bool.not_eq_true', List.contains_eq_mem, decide_eq_false_iff_not]
      intro hcut
      exact clean b hcut hb
    have hstop : z.takeWhile (fun b => !cutset.contains b) = [] := chopAtFirst_eq_nil.mpr hz
    rw [chopAtFirst, List.takeWhile_append_of_pos hkept, hstop, List.append_nil]

end Search

section Form

variable (form : HostForm)

theorem colon_notMem {s : List UInt8} (h : ∀ b ∈ cuts, b ∉ s) : (0x3A : UInt8) ∉ s := by
  apply h
  decide

theorem digit_ne {b c : UInt8} (digit : 0x30 ≤ b ∧ b ≤ 0x39) (h : c < 0x30 ∨ 0x39 < c) : b ≠ c := by
  rintro rfl
  rcases h with h | h
  · exact absurd digit.1 (UInt8.not_le.mpr h)
  · exact absurd digit.2 (UInt8.not_le.mpr h)

theorem strstr_port {p : List UInt8} (digits : p ≠ [] ∧ ∀ b ∈ p, 0x30 ≤ b ∧ b ≤ 0x39)
    (text : List UInt8) :
    strstr schemeMark (0x3A :: (p ++ text)) = strstr schemeMark text := by
  obtain ⟨hne, hdigits⟩ := digits
  have hcolon : (0x3A : UInt8) ∉ p := by
    intro hmem
    exact digit_ne (hdigits _ hmem) (Or.inr (by decide)) rfl
  have hafter : strstr schemeMark (p ++ text) = strstr schemeMark text :=
    strstr_schemeMark_append hcolon text
  obtain ⟨d, p, rfl⟩ := List.exists_cons_of_ne_nil hne
  have hother : ¬ schemeMark <+: 0x3A :: (d :: p ++ text) := by
    intro hstarts
    have hslash : (0x2F : UInt8) = d :=
      (List.cons_prefix_cons.mp (List.cons_prefix_cons.mp hstarts).2).1
    exact digit_ne (hdigits d List.mem_cons_self) (Or.inl (by decide)) hslash.symm
  rw [strstr, if_neg hother, hafter]

theorem strstr_authority : strstr schemeMark form.authority = strstr schemeMark form.rest := by
  have hhost := colon_notMem form.hostName.2.2
  have hpast : strstr schemeMark form.authority =
      strstr schemeMark (form.port.elim [] (fun p => 0x3A :: p) ++ form.rest) :=
    strstr_schemeMark_append hhost _
  rw [hpast]
  cases hport : form.port with
  | none => rfl
  | some p => exact strstr_port (form.portDigits p hport) form.rest

theorem afterScheme_of_scheme (h : form.scheme.isSome) : afterScheme form.text = form.authority := by
  obtain ⟨s, hs⟩ := Option.isSome_iff_exists.mp h
  have htext : form.text = s ++ (schemeMark ++ form.authority) := by
    rw [HostForm.text, hs, Option.elim_some, List.append_assoc]
  have hfound : strstr schemeMark form.text = some (schemeMark ++ form.authority) := by
    rw [htext, ← strstr_append_self schemeMark form.authority]
    exact strstr_schemeMark_append (colon_notMem (form.schemeName s hs).2.2) _
  rw [afterScheme, hfound]
  rfl

theorem nulFree_text : (0 : UInt8) ∉ form.text := by
  have hmark : (0 : UInt8) ∉ schemeMark := by decide
  have hport : (0 : UInt8) ∉ form.port.elim [] fun p => 0x3A :: p := by
    cases hp : form.port with
    | none => exact List.not_mem_nil
    | some p =>
      rw [Option.elim_some, List.mem_cons, not_or]
      refine ⟨by decide, fun hmem => ?_⟩
      exact digit_ne ((form.portDigits p hp).2 _ hmem) (Or.inl (by decide)) rfl
  have hauthority : (0 : UInt8) ∉ form.authority := by
    rw [HostForm.authority, List.mem_append, List.mem_append, not_or, not_or]
    exact ⟨form.hostName.2.1, hport, form.restNulFree⟩
  rw [HostForm.text, List.mem_append, not_or]
  refine ⟨?_, hauthority⟩
  cases hs : form.scheme with
  | none => exact List.not_mem_nil
  | some s =>
    rw [Option.elim_some, List.mem_append, not_or]
    exact ⟨(form.schemeName s hs).2.1, hmark⟩

def HostForm.source : CString := ⟨form.text, nulFree_text form⟩

theorem authority_cutsTo {room : Nat} (h : form.host.length ≤ room) :
    CutsTo form.host form.authority room := by
  refine ⟨(form.port.elim [] (fun p => 0x3A :: p) ++ form.rest).take (room - form.host.length),
    ?_, ?_⟩
  · rw [HostForm.authority, List.take_append, List.take_of_length_le h]
  · intro b hb
    rw [List.head?_take] at hb
    split_ifs at hb
    · exact absurd hb (by simp)
    · cases hp : form.port with
      | none =>
        rw [hp, Option.elim_none, List.nil_append] at hb
        exact List.mem_append_left (ascii ":") (form.restStarts b hb)
      | some p =>
        rw [hp, Option.elim_some, List.cons_append, List.head?_cons, Option.mem_some] at hb
        subst hb
        decide

theorem safeHostnameOnly_eq_iff {dstsz : Nat} (short : form.text.length ≤ 511)
    (room : form.host.length < dstsz) :
    (safeHostnameOnly dstsz (Nat.zero_lt_of_lt room) form.source).bytes = form.host ↔
      CutsTo form.host (afterScheme form.text) (dstsz - 1) := by
  have htmp : form.text.take 511 = form.text := List.take_of_length_le short
  have hcopy : hostnameOnly dstsz form.text =
      chopAtFirst cuts ((afterScheme form.text).take (dstsz - 1)) := by
    simp only [hostnameOnly, htmp, chop_twice]
  show hostnameOnly dstsz form.text = form.host ↔ _
  rw [hcopy]
  exact chopAtFirst_eq_iff form.hostName.2.2

/-- The host comes out unless a `://` of the path or query is taken for the end of a scheme that
is not there, and something else than the host follows it. -/
theorem safeHostnameOnly_iff {dstsz : Nat} (short : form.text.length ≤ 511)
    (room : form.host.length < dstsz) :
    (safeHostnameOnly dstsz (Nat.zero_lt_of_lt room) form.source).bytes = form.host ↔
      form.scheme.isSome ∨ ∀ q, strstr schemeMark form.rest = some (schemeMark ++ q) →
        CutsTo form.host q (dstsz - 1) := by
  have hauthority := authority_cutsTo form (show form.host.length ≤ dstsz - 1 by omega)
  rw [safeHostnameOnly_eq_iff form short room]
  by_cases hscheme : form.scheme.isSome
  · rw [afterScheme_of_scheme form hscheme]
    exact iff_of_true hauthority (Or.inl hscheme)
  · have htext : form.text = form.authority := by
      rw [HostForm.text, Option.not_isSome_iff_eq_none.mp hscheme, Option.elim_none,
        List.nil_append]
    rw [htext, afterScheme, strstr_authority]
    cases hfound : strstr schemeMark form.rest with
    | none =>
      refine iff_of_true hauthority (Or.inr ?_)
      intro q hq
      cases hq
    | some found =>
      obtain ⟨⟨q, rfl⟩, -⟩ := strstr_suffix hfound
      have hdrop : (schemeMark ++ q).drop 3 = q := rfl
      simp only [hdrop, hscheme, Bool.false_eq_true, false_or, Option.some.injEq,
        List.append_cancel_left_eq]
      constructor
      · rintro h q' rfl
        exact h
      · intro h
        exact h q rfl

end Form

/-- `example.com/r?u=http://evil.net`. -/
def redirectForm : HostForm where
  scheme := none
  host := ascii "example.com"
  port := none
  rest := ascii "/r?u=http://evil.net"
  schemeName := fun s hs => by cases hs
  hostName := by decide +kernel
  portDigits := fun p hp => by cases hp
  restStarts := by decide +kernel
  restNulFree := by decide +kernel

theorem redirect_to_evil :
    (safeHostnameOnly 256 (by decide) redirectForm.source).bytes ≠ redirectForm.host := by
  decide +kernel

def brokerForm : HostForm where
  scheme := some (ascii "mqtts")
  host := ascii "iothub.azure-devices.net"
  port := some (ascii "8883")
  rest := ascii "/?u=http://evil.net"
  schemeName := by decide +kernel
  hostName := by decide +kernel
  portDigits := by decide +kernel
  restStarts := by decide +kernel
  restNulFree := by decide +kernel

theorem broker_host :
    (safeHostnameOnly 256 (by decide) brokerForm.source).bytes = brokerForm.host := by
  have short : brokerForm.text.length ≤ 511 := by decide +kernel
  have room : brokerForm.host.length < 256 := by decide +kernel
  apply (safeHostnameOnly_iff brokerForm short room).mpr
  exact Or.inl rfl

end Evi7688.Azureiotd.HostForms
