/- Evi7688/Azureiotd/SafeStr
   digest: The host name that is cut out of a URL or of a host with a port. -/

import Evi7688.Library.Bytes

set_option autoImplicit false
set_option relaxedAutoImplicit false

namespace Evi7688.Azureiotd.SafeStr

open Evi7688.Library.Bytes

/-- `strstr`: the rest of the text from the first occurrence of the needle. -/
def strstr (needle : List UInt8) : List UInt8 → Option (List UInt8)
  | [] => if needle = [] then some [] else none
  | b :: text => if needle <+: b :: text then some (b :: text) else strstr needle text

def schemeMark : List UInt8 := ascii "://"

/-- What stands behind the first `://`, or everything. -/
def afterScheme (text : List UInt8) : List UInt8 :=
  match strstr schemeMark text with
  | some scheme => scheme.drop 3
  | none => text

/-- The characters that end a host name. -/
def cuts : List UInt8 := ascii "/?#:"

def chopAtFirst (cutset s : List UInt8) : List UInt8 := s.takeWhile fun b => !cutset.contains b

/-- The string `safe_hostname_only` leaves in a buffer of `dstsz` bytes. -/
def hostnameOnly (dstsz : Nat) (src : List UInt8) : List UInt8 :=
  let tmp := src.take 511
  let dst := (afterScheme tmp).take (dstsz - 1)
  chopAtFirst (ascii ":") (chopAtFirst (ascii "/?#") dst)

theorem strstr_suffix {needle text found : List UInt8} (h : strstr needle text = some found) :
    needle <+: found ∧ found <:+ text := by
  induction text with
  | nil =>
    rw [strstr] at h
    split_ifs at h with hnil
    obtain rfl := Option.some.inj h
    exact ⟨hnil ▸ List.prefix_rfl, List.suffix_rfl⟩
  | cons b text ih =>
    rw [strstr] at h
    split_ifs at h with hstarts
    · obtain rfl := Option.some.inj h
      exact ⟨hstarts, List.suffix_rfl⟩
    · exact ⟨(ih h).1, (ih h).2.trans (List.suffix_cons _ _)⟩

theorem afterScheme_suffix (text : List UInt8) : afterScheme text <:+ text := by
  unfold afterScheme
  split
  · rename_i scheme hfound
    exact (List.drop_suffix _ _).trans (strstr_suffix hfound).2
  · exact List.suffix_rfl

theorem hostnameOnly_subset (dstsz : Nat) (src : List UInt8) : hostnameOnly dstsz src ⊆ src := by
  intro b hb
  have hdst := List.takeWhile_subset _ (List.takeWhile_subset _ hb)
  exact List.mem_of_mem_take ((afterScheme_suffix _).subset (List.mem_of_mem_take hdst))

theorem length_hostnameOnly_le (dstsz : Nat) (src : List UInt8) :
    (hostnameOnly dstsz src).length ≤ dstsz - 1 := by
  have hport := (List.takeWhile_prefix (fun b => !(ascii ":").contains b)
    (l := chopAtFirst (ascii "/?#") ((afterScheme (src.take 511)).take (dstsz - 1)))).length_le
  have hpath := (List.takeWhile_prefix (fun b => !(ascii "/?#").contains b)
    (l := (afterScheme (src.take 511)).take (dstsz - 1))).length_le
  have hcopy := List.length_take_le (dstsz - 1) (afterScheme (src.take 511))
  exact hport.trans (hpath.trans hcopy)

/-- `safe_hostname_only`. -/
def safeHostnameOnly (n : Nat) (positive : 0 < n) (src : CString) : CArray n where
  bytes := hostnameOnly n src.bytes
  nulFree := fun h => src.nulFree (hostnameOnly_subset n src.bytes h)
  fits := by
    have hle := length_hostnameOnly_le n src.bytes
    omega

/-- `strlcpy_compat`. -/
def strlcpyCompat (n : Nat) (positive : 0 < n) (src : CString) : CArray n :=
  CArray.copy n positive (some src)

/-- Both cuts are one cut at the first of the four characters. -/
theorem chop_twice (s : List UInt8) :
    chopAtFirst (ascii ":") (chopAtFirst (ascii "/?#") s) = chopAtFirst cuts s := by
  have hcuts : cuts = ascii "/?#" ++ ascii ":" := rfl
  rw [chopAtFirst, chopAtFirst, List.takeWhile_takeWhile, chopAtFirst, hcuts]
  congr 1
  funext b
  rw [List.contains_append, Bool.not_or, Bool.and_comm, Bool.decide_and, Bool.decide_coe,
    Bool.decide_coe]

theorem hostnameOnly_eq {dstsz : Nat} {src : List UInt8} (hsrc : src.length ≤ 511)
    (hdst : src.length < dstsz) : hostnameOnly dstsz src = chopAtFirst cuts (afterScheme src) := by
  have htmp : src.take 511 = src := List.take_of_length_le hsrc
  have hcopy : (afterScheme src).take (dstsz - 1) = afterScheme src := by
    have hle := (afterScheme_suffix src).length_le
    exact List.take_of_length_le (by omega)
  simp only [hostnameOnly, htmp, hcopy, chop_twice]

theorem chopAtFirst_eq_nil {cutset s : List UInt8} :
    chopAtFirst cutset s = [] ↔ ∀ b ∈ s.head?, b ∈ cutset := by
  cases s with
  | nil => simp [chopAtFirst]
  | cons b s => simp [chopAtFirst, List.takeWhile_cons]

theorem notMem_chopAtFirst {cutset s : List UInt8} : ∀ b ∈ cutset, b ∉ chopAtFirst cutset s := by
  intro b hb hmem
  have hkept := List.mem_takeWhile_imp hmem
  simp [hb] at hkept

theorem exists_cut {text : List UInt8} (hne : text ≠ [])
    (hnone : chopAtFirst cuts (afterScheme text) = []) : ∃ b ∈ cuts, b ∈ text := by
  cases hfound : strstr schemeMark text with
  | some scheme =>
    obtain ⟨⟨rest, rfl⟩, hsuffix⟩ := strstr_suffix hfound
    exact ⟨0x3A, by decide, hsuffix.subset List.mem_cons_self⟩
  | none =>
    obtain ⟨b, rest, rfl⟩ := List.exists_cons_of_ne_nil hne
    have hafter : afterScheme (b :: rest) = b :: rest := by
      rw [afterScheme, hfound]
    rw [hafter, chopAtFirst_eq_nil] at hnone
    exact ⟨b, hnone b rfl, List.mem_cons_self⟩

theorem afterScheme_of_notMem {text : List UInt8} (h : 0x3A ∉ text) : afterScheme text = text := by
  cases hfound : strstr schemeMark text with
  | none => rw [afterScheme, hfound]
  | some scheme =>
    obtain ⟨hmark, hsuffix⟩ := strstr_suffix hfound
    exact absurd (hsuffix.subset (hmark.subset (by decide))) h

theorem chopAtFirst_of_notMem {cutset s : List UInt8} (h : ∀ b ∈ cutset, b ∉ s) :
    chopAtFirst cutset s = s := by
  rw [chopAtFirst, List.takeWhile_eq_self_iff]
  intro b hb
  have hnot : b ∉ cutset := fun hcut => h b hcut hb
  simp [hnot]

theorem hostnameOnly_noCuts (dstsz : Nat) (src : List UInt8) :
    ∀ b ∈ cuts, b ∉ hostnameOnly dstsz src := by
  intro b hb
  simp only [hostnameOnly, chop_twice]
  exact notMem_chopAtFirst b hb

theorem length_hostnameOnly_le_tmp (dstsz : Nat) (src : List UInt8) :
    (hostnameOnly dstsz src).length ≤ 511 := by
  have hchop := (List.takeWhile_prefix (fun b => !cuts.contains b)
    (l := (afterScheme (src.take 511)).take (dstsz - 1))).length_le
  have hcopy := List.length_take_le' (dstsz - 1) (afterScheme (src.take 511))
  have hscheme := (afterScheme_suffix (src.take 511)).length_le
  have htmp := List.length_take_le 511 src
  simp only [hostnameOnly, chop_twice]
  exact hchop.trans (hcopy.trans (hscheme.trans htmp))

/-- Whatever the source, the result fits, holds no character that ends a host name, and is its own
host name. -/
theorem safeHostnameOnly_stable (dstsz : Nat) (positive : 0 < dstsz) (src : CString) :
    (safeHostnameOnly dstsz positive src).bytes.length < dstsz ∧
      (∀ b ∈ cuts, b ∉ (safeHostnameOnly dstsz positive src).bytes) ∧
      safeHostnameOnly dstsz positive (safeHostnameOnly dstsz positive src).toCString =
        safeHostnameOnly dstsz positive src := by
  have hcuts := hostnameOnly_noCuts dstsz src.bytes
  have hlength := length_hostnameOnly_le dstsz src.bytes
  refine ⟨by simp only [safeHostnameOnly]; omega, hcuts, ?_⟩
  apply CArray.ext_bytes
  have hcolon : 0x3A ∉ hostnameOnly dstsz src.bytes := hcuts 0x3A (by decide)
  calc hostnameOnly dstsz (hostnameOnly dstsz src.bytes)
      = chopAtFirst cuts (afterScheme (hostnameOnly dstsz src.bytes)) :=
        hostnameOnly_eq (length_hostnameOnly_le_tmp dstsz src.bytes) (by omega)
    _ = chopAtFirst cuts (hostnameOnly dstsz src.bytes) := by rw [afterScheme_of_notMem hcolon]
    _ = hostnameOnly dstsz src.bytes := chopAtFirst_of_notMem hcuts

/-- Behind the scheme stands a second separator, which the buffer cuts in two. -/
theorem safeHostnameOnly_stable_cut :
    (safeHostnameOnly 4 (by decide) (literal "x://a://b")).bytes.length < 4 ∧
      (∀ b ∈ cuts, b ∉ (safeHostnameOnly 4 (by decide) (literal "x://a://b")).bytes) ∧
      safeHostnameOnly 4 (by decide)
          (safeHostnameOnly 4 (by decide) (literal "x://a://b")).toCString =
        safeHostnameOnly 4 (by decide) (literal "x://a://b") :=
  safeHostnameOnly_stable 4 (by decide) (literal "x://a://b")

end Evi7688.Azureiotd.SafeStr
