/- Evi7688/Library/Numerals
   digest: Decimal and hexadecimal text as the C library prints and scans it. -/

import Evi7688.Library.Bytes
import Mathlib.Data.List.TakeWhile
import Mathlib.Data.Nat.Digits.Lemmas

set_option autoImplicit false
set_option relaxedAutoImplicit false

namespace Evi7688.Library.Numerals

open Evi7688.Library.Bytes (ascii)

def decimalNat (n : Nat) : List UInt8 :=
  if n = 0 then ascii "0" else (Nat.digits 10 n).reverse.map fun d => UInt8.ofNat (0x30 + d)

/-- `%d` and `%ld`. -/
def decimal (v : Int) : List UInt8 :=
  if v < 0 then ascii "-" ++ decimalNat v.natAbs else decimalNat v.natAbs

def hexDigit (v : UInt8) : UInt8 := if v < 10 then 0x30 + v else 0x37 + v

/-- `%02X` of a byte. -/
def hexByte (v : UInt8) : List UInt8 := [hexDigit (v >>> 4), hexDigit (v &&& 0x0F)]

/-- `isspace` in the C locale. -/
def isSpace (b : UInt8) : Bool := b == 0x20 || (0x09 ≤ b && b ≤ 0x0D)

def isDigit (b : UInt8) : Bool := 0x30 ≤ b && b ≤ 0x39

def isHexDigit (b : UInt8) : Bool :=
  isDigit b || (0x41 ≤ b && b ≤ 0x46) || (0x61 ≤ b && b ≤ 0x66)

def digitValue (b : UInt8) : Nat :=
  if isDigit b then b.toNat - 0x30 else if b < 0x61 then b.toNat - 0x37 else b.toNat - 0x57

def digitsValue (base : Nat) (ds : List UInt8) : Nat :=
  Nat.ofDigits base (ds.reverse.map digitValue)

def splitSign (bs : List UInt8) : Bool × List UInt8 :=
  match bs with
  | [] => (false, [])
  | b :: rest =>
    if b = 0x2D then (true, rest) else if b = 0x2B then (false, rest) else (false, b :: rest)

/-- `sscanf(text, "%d", &v)`, and `atoi` of a text with a numeral: the conversion is to 64 bits,
where it saturates, and the low 32 of them are kept. -/
def scanInt (text : List UInt8) : Option Int :=
  let signed := splitSign (text.dropWhile isSpace)
  let ds := signed.2.takeWhile isDigit
  if ds = [] then none
  else
    let magnitude : Int := digitsValue 10 ds
    let converted := if signed.1 then max (-magnitude) (-2 ^ 63) else min magnitude (2 ^ 63 - 1)
    some (converted.bmod (2 ^ 32))

/-- The digits `%x` converts: a `0x` is skipped, and then needs a digit after it. -/
def hexDigits (bs : List UInt8) : List UInt8 :=
  match bs with
  | z :: x :: rest =>
    if z = 0x30 ∧ (x = 0x78 ∨ x = 0x58) then rest.takeWhile isHexDigit
    else (z :: x :: rest).takeWhile isHexDigit
  | short => short.takeWhile isHexDigit

/-- `sscanf(text, "%x", &v)` into a 32-bit unsigned: the conversion is to 64 bits, where it
saturates and a minus negates, and the low 32 of them are kept. -/
def scanHex (text : List UInt8) : Option Nat :=
  let signed := splitSign (text.dropWhile isSpace)
  let ds := hexDigits signed.2
  if ds = [] then none
  else
    let magnitude := digitsValue 16 ds
    let converted :=
      if 2 ^ 64 ≤ magnitude then 2 ^ 64 - 1 else if signed.1 then 2 ^ 64 - magnitude else magnitude
    some (converted % 2 ^ 32)

private theorem digit_ascii (d : Nat) (h : d < 10) :
    isDigit (UInt8.ofNat (0x30 + d)) = true ∧ digitValue (UInt8.ofNat (0x30 + d)) = d := by
  have table : ∀ d : Fin 10, isDigit (UInt8.ofNat (0x30 + d.val)) = true ∧
      digitValue (UInt8.ofNat (0x30 + d.val)) = d.val := by
    decide
  exact table ⟨d, h⟩

theorem decimalNat_ne_nil (n : Nat) : decimalNat n ≠ [] := by
  unfold decimalNat
  split
  · decide
  · rename_i hn
    simpa using Nat.digits_ne_nil_iff_ne_zero.mpr hn

theorem decimalNat_isDigit (n : Nat) : ∀ b ∈ decimalNat n, isDigit b = true := by
  intro b hb
  unfold decimalNat at hb
  split at hb
  · obtain rfl : b = 0x30 := by simpa [ascii] using hb
    decide
  · obtain ⟨d, hd, rfl⟩ := List.mem_map.mp hb
    exact (digit_ascii d (Nat.digits_lt_base (by omega) (List.mem_reverse.mp hd))).1

theorem length_decimalNat_le {n k : Nat} (hk : 0 < k) (h : n < 10 ^ k) :
    (decimalNat n).length ≤ k := by
  unfold decimalNat
  split
  · exact hk
  · rw [List.length_map, List.length_reverse]
    exact (Nat.digits_length_le_iff (by omega) n).mpr h

theorem mem_decimal {v : Int} : ∀ b ∈ decimal v, b = 0x2D ∨ isDigit b = true := by
  intro b hb
  unfold decimal at hb
  split at hb
  · rcases List.mem_append.mp hb with hb | hb
    · exact Or.inl (List.mem_singleton.mp hb)
    · exact Or.inr (decimalNat_isDigit _ b hb)
  · exact Or.inr (decimalNat_isDigit _ b hb)

theorem length_decimal_le_of_natAbs {v : Int} {k : Nat} (hk : 0 < k) (h : v.natAbs < 10 ^ k) :
    (decimal v).length ≤ k + 1 := by
  have hnat := length_decimalNat_le hk h
  unfold decimal
  split
  · rw [List.length_append, show (ascii "-").length = 1 from rfl]
    omega
  · omega

theorem length_decimal_le {v : Int} (lower : -2 ^ 31 ≤ v) (upper : v < 2 ^ 31) :
    (decimal v).length ≤ 11 :=
  length_decimal_le_of_natAbs (by omega) (show v.natAbs < 10 ^ 10 by omega)

theorem digitsValue_decimalNat (n : Nat) : digitsValue 10 (decimalNat n) = n := by
  unfold decimalNat
  split
  · rename_i hn
    subst hn
    decide
  · have values : ((Nat.digits 10 n).reverse.map fun d => UInt8.ofNat (0x30 + d)).reverse.map
        digitValue = Nat.digits 10 n := by
      rw [← List.map_reverse, List.reverse_reverse, List.map_map]
      refine (List.map_congr_left fun d hd => ?_).trans (List.map_id _)
      exact (digit_ascii d (Nat.digits_lt_base (by omega) hd)).2
    rw [digitsValue, values, Nat.ofDigits_digits]

private theorem takeWhile_decimalNat (n : Nat) :
    (decimalNat n).takeWhile isDigit = decimalNat n :=
  List.takeWhile_eq_self_iff.mpr (decimalNat_isDigit n)

private theorem scan_start {bs : List UInt8} (hne : bs ≠ []) (hd : ∀ b ∈ bs, isDigit b = true) :
    bs.dropWhile isSpace = bs ∧ splitSign bs = (false, bs) := by
  obtain ⟨b, rest, rfl⟩ := List.exists_cons_of_ne_nil hne
  have hb : isDigit b = true := hd b List.mem_cons_self
  have hrange : 0x30 ≤ b.toNat ∧ b.toNat ≤ 0x39 := by
    simpa [isDigit, UInt8.le_iff_toNat_le] using hb
  have hspace : isSpace b = false := by
    simp only [isSpace, Bool.or_eq_false_iff, beq_eq_false_iff_ne, ne_eq, Bool.and_eq_false_iff,
      decide_eq_false_iff_not, UInt8.le_iff_toNat_le, ← UInt8.toNat_inj]
    simp
    omega
  have hminus : b ≠ 0x2D := by
    rintro rfl
    exact absurd hrange (by decide)
  have hplus : b ≠ 0x2B := by
    rintro rfl
    exact absurd hrange (by decide)
  exact ⟨by simp [hspace], by simp [splitSign, hminus, hplus]⟩

private theorem bmod_of_int32 {v : Int} (lower : -2 ^ 31 ≤ v) (upper : v < 2 ^ 31) :
    v.bmod (2 ^ 32) = v :=
  Int.bmod_eq_of_le_mul_two (by omega) (by omega)

theorem scanInt_decimal (v : Int) (lower : -2 ^ 31 ≤ v) (upper : v < 2 ^ 31) :
    scanInt (decimal v) = some v := by
  have hne := decimalNat_ne_nil v.natAbs
  obtain ⟨hdrop, hsign⟩ := scan_start hne (decimalNat_isDigit v.natAbs)
  by_cases hv : v < 0
  · have hminus : splitSign ((ascii "-" ++ decimalNat v.natAbs).dropWhile isSpace) =
        (true, decimalNat v.natAbs) := by
      rfl
    have hvalue : max (-(v.natAbs : Int)) (-2 ^ 63) = v := by omega
    simp only [scanInt, decimal, if_pos hv, hminus, takeWhile_decimalNat, if_neg hne,
      digitsValue_decimalNat, if_true, hvalue, bmod_of_int32 lower upper]
  · have hvalue : min (v.natAbs : Int) (2 ^ 63 - 1) = v := by omega
    simp only [scanInt, decimal, if_neg hv, hdrop, hsign, takeWhile_decimalNat, if_neg hne,
      digitsValue_decimalNat, Bool.false_eq_true, if_false, hvalue, bmod_of_int32 lower upper]

theorem scanInt_range {text : List UInt8} {v : Int} (h : scanInt text = some v) :
    -2 ^ 31 ≤ v ∧ v < 2 ^ 31 := by
  simp only [scanInt] at h
  split_ifs at h with hnone hsign
  · obtain rfl := Option.some.inj h
    exact ⟨Int.le_bmod (by decide), Int.bmod_lt (by decide)⟩
  · obtain rfl := Option.some.inj h
    exact ⟨Int.le_bmod (by decide), Int.bmod_lt (by decide)⟩

theorem mem_hexByte (v : UInt8) : ∀ b ∈ hexByte v, isHexDigit b = true := by
  have table : ∀ n : Fin 256, (hexByte (UInt8.ofNat n.val)).all isHexDigit = true := by
    decide +kernel
  simpa using table ⟨v.toNat, v.toNat_lt⟩

theorem scanHex_hexByte (v : UInt8) : scanHex (ascii "0x" ++ hexByte v) = some v.toNat := by
  have table : ∀ n : Fin 256, scanHex (ascii "0x" ++ hexByte (UInt8.ofNat n.val)) =
      some n.val := by
    decide +kernel
  simpa using table ⟨v.toNat, v.toNat_lt⟩

section HexNumerals

variable {ds : List UInt8}

private theorem hexDigit_plain {b : UInt8} (h : isHexDigit b = true) :
    isSpace b = false ∧ b ≠ 0x2D ∧ b ≠ 0x2B ∧ b ≠ 0x78 ∧ b ≠ 0x58 := by
  have table : ∀ n : Fin 256, isHexDigit (UInt8.ofNat n.val) = true →
      isSpace (UInt8.ofNat n.val) = false ∧ UInt8.ofNat n.val ≠ 0x2D ∧ UInt8.ofNat n.val ≠ 0x2B ∧
        UInt8.ofNat n.val ≠ 0x78 ∧ UInt8.ofNat n.val ≠ 0x58 := by
    decide +kernel
  have hb := table ⟨b.toNat, b.toNat_lt⟩
  rw [UInt8.ofNat_toNat] at hb
  exact hb h

private theorem hexDigits_of_digits (digits : ∀ d ∈ ds, isHexDigit d = true) :
    hexDigits ds = ds := by
  have htake : ds.takeWhile isHexDigit = ds := List.takeWhile_eq_self_iff.mpr digits
  unfold hexDigits
  split
  · rename_i z x rest
    obtain ⟨-, -, -, hlower, hupper⟩ :=
      hexDigit_plain (digits x (List.mem_cons_of_mem _ List.mem_cons_self))
    rw [if_neg (by simp [hlower, hupper])]
    exact htake
  · exact htake

theorem scanHex_digits (nonempty : ds ≠ []) (digits : ∀ d ∈ ds, isHexDigit d = true)
    (small : digitsValue 16 ds < 2 ^ 32) : scanHex ds = some (digitsValue 16 ds) := by
  have hstart : splitSign (ds.dropWhile isSpace) = (false, ds) := by
    obtain ⟨b, rest, rfl⟩ := List.exists_cons_of_ne_nil nonempty
    obtain ⟨hspace, hminus, hplus, -⟩ := hexDigit_plain (digits b List.mem_cons_self)
    simp [hspace, splitSign, hminus, hplus]
  simp only [scanHex, hstart, hexDigits_of_digits digits, if_neg nonempty, Bool.false_eq_true,
    if_false]
  rw [if_neg (by omega), Nat.mod_eq_of_lt small]

theorem scanHex_prefixed (nonempty : ds ≠ []) (digits : ∀ d ∈ ds, isHexDigit d = true)
    (small : digitsValue 16 ds < 2 ^ 32) :
    scanHex (ascii "0x" ++ ds) = some (digitsValue 16 ds) := by
  have hstart : splitSign ((ascii "0x" ++ ds).dropWhile isSpace) = (false, ascii "0x" ++ ds) := by
    rfl
  have hskip : hexDigits (ascii "0x" ++ ds) = ds := by
    have htake : ds.takeWhile isHexDigit = ds := List.takeWhile_eq_self_iff.mpr digits
    exact htake
  simp only [scanHex, hstart, hskip, if_neg nonempty, Bool.false_eq_true, if_false]
  rw [if_neg (by omega), Nat.mod_eq_of_lt small]

theorem digitsValue_lt_pow (digits : ∀ d ∈ ds, isHexDigit d = true) :
    digitsValue 16 ds < 16 ^ ds.length := by
  have hdigit : ∀ v ∈ ds.reverse.map digitValue, v < 16 := by
    intro v hv
    obtain ⟨d, hd, rfl⟩ := List.mem_map.mp hv
    have table : ∀ n : Fin 256, isHexDigit (UInt8.ofNat n.val) = true →
        digitValue (UInt8.ofNat n.val) < 16 := by
      decide +kernel
    have hbyte := table ⟨d.toNat, d.toNat_lt⟩
    rw [UInt8.ofNat_toNat] at hbyte
    exact hbyte (digits d (List.mem_reverse.mp hd))
  have hlt := Nat.ofDigits_lt_base_pow_length (by omega) hdigit
  rwa [List.length_map, List.length_reverse] at hlt

end HexNumerals

end Evi7688.Library.Numerals
