/- Evi7688/Library/PercentCoding
   digest: Percent-encoded byte strings: their grammar, an encoder that keeps some bytes, and decoding. -/

import Evi7688.Library.Bytes

set_option autoImplicit false
set_option relaxedAutoImplicit false

namespace Evi7688.Library.PercentCoding

open Evi7688.Library.Bytes (ascii)

/-- The bytes that stand for themselves in every part of a URL. -/
def unreservedBytes : List UInt8 :=
  ascii "ABCDEFGHIJKLMNOPQRSTUVWXYZabcdefghijklmnopqrstuvwxyz0123456789-_.~"

def upperHexBytes : List UInt8 := ascii "0123456789ABCDEF"

/-- The digit of a number below 16. -/
def upperHex (n : Nat) : UInt8 := upperHexBytes.getD n 0

def escape (b : UInt8) : List UInt8 := [0x25, upperHex (b.toNat / 16), upperHex (b.toNat % 16)]

/-- Encoding that keeps the bytes of a predicate and escapes the others. -/
def encode (keep : UInt8 → Bool) (bs : List UInt8) : List UInt8 :=
  bs.flatMap fun b => if keep b then [b] else escape b

/-- Unreserved bytes, and percent signs with two uppercase digits. -/
inductive Encoded : List UInt8 → Prop
  | nil : Encoded []
  | unreserved {b : UInt8} {rest : List UInt8} (h : b ∈ unreservedBytes) (tail : Encoded rest) :
    Encoded (b :: rest)
  | escaped {high low : UInt8} {rest : List UInt8} (hhigh : high ∈ upperHexBytes)
    (hlow : low ∈ upperHexBytes) (tail : Encoded rest) : Encoded (0x25 :: high :: low :: rest)

/-- The value of a hexadecimal digit of either case. -/
def hexValue (b : UInt8) : Option Nat :=
  if 0x30 ≤ b ∧ b ≤ 0x39 then some (b.toNat - 0x30)
  else if 0x41 ≤ b ∧ b ≤ 0x46 then some (b.toNat - 0x37)
  else if 0x61 ≤ b ∧ b ≤ 0x66 then some (b.toNat - 0x57)
  else none

/-- Decoding; a percent sign without two digits after it is an error. -/
def decode : List UInt8 → Option (List UInt8)
  | [] => some []
  | b :: rest =>
    if b = 0x25 then
      match rest with
      | high :: low :: rest =>
        (hexValue high).bind fun h => (hexValue low).bind fun l =>
          (decode rest).map (UInt8.ofNat (h * 16 + l) :: ·)
      | _ => none
    else (decode rest).map (b :: ·)

theorem upperHex_mem {n : Nat} (h : n < 16) : upperHex n ∈ upperHexBytes := by
  have table : ∀ i : Fin 16, upperHex i.val ∈ upperHexBytes := by decide
  exact table ⟨n, h⟩

theorem hexValue_upperHex {n : Nat} (h : n < 16) : hexValue (upperHex n) = some n := by
  have table : ∀ i : Fin 16, hexValue (upperHex i.val) = some i.val := by decide
  exact table ⟨n, h⟩

theorem decode_cons_of_ne {b : UInt8} (h : b ≠ 0x25) (rest : List UInt8) :
    decode (b :: rest) = (decode rest).map (b :: ·) := by
  conv_lhs => unfold decode
  exact if_neg h

theorem decode_escape (b : UInt8) (rest : List UInt8) :
    decode (escape b ++ rest) = (decode rest).map (b :: ·) := by
  have hlt := b.toNat_lt
  have hbyte : UInt8.ofNat (b.toNat / 16 * 16 + b.toNat % 16) = b := by
    rw [Nat.div_add_mod', UInt8.ofNat_toNat]
  have hsplit : escape b ++ rest =
      0x25 :: upperHex (b.toNat / 16) :: upperHex (b.toNat % 16) :: rest := rfl
  rw [hsplit, decode, if_pos rfl]
  simp only [hexValue_upperHex (show b.toNat / 16 < 16 by omega),
    hexValue_upperHex (show b.toNat % 16 < 16 by omega), Option.bind_some, hbyte]

theorem encode_cons (keep : UInt8 → Bool) (b : UInt8) (bs : List UInt8) :
    encode keep (b :: bs) = (if keep b then [b] else escape b) ++ encode keep bs :=
  List.flatMap_cons

theorem mem_unreservedBytes_of_upperHex {b : UInt8} (h : b ∈ upperHexBytes) :
    b ∈ unreservedBytes := by
  have table : ∀ b ∈ upperHexBytes, b ∈ unreservedBytes := by decide +kernel
  exact table b h

theorem Encoded.mem {bs : List UInt8} (h : Encoded bs) {b : UInt8} (hb : b ∈ bs) :
    b = 0x25 ∨ b ∈ unreservedBytes := by
  induction h with
  | nil => cases hb
  | unreserved hfirst tail ih =>
    rcases List.mem_cons.mp hb with rfl | hrest
    · exact Or.inr hfirst
    · exact ih hrest
  | escaped hhigh hlow tail ih =>
    rcases List.mem_cons.mp hb with rfl | hb
    · exact Or.inl rfl
    · rcases List.mem_cons.mp hb with rfl | hb
      · exact Or.inr (mem_unreservedBytes_of_upperHex hhigh)
      · rcases List.mem_cons.mp hb with rfl | hrest
        · exact Or.inr (mem_unreservedBytes_of_upperHex hlow)
        · exact ih hrest

section Keeping

variable {keep : UInt8 → Bool}

/-- Decoding undoes encoding if the percent sign is escaped. -/
theorem decode_encode (percent : keep 0x25 = false) (bs : List UInt8) :
    decode (encode keep bs) = some bs := by
  induction bs with
  | nil => rfl
  | cons b bs ih =>
    rw [encode_cons]
    split_ifs with hkeep
    · have hne : b ≠ 0x25 := by
        rintro rfl
        rw [percent] at hkeep
        cases hkeep
      rw [List.singleton_append, decode_cons_of_ne hne, ih]
      rfl
    · rw [decode_escape, ih]
      rfl

theorem encode_injective (percent : keep 0x25 = false) : Function.Injective (encode keep) := by
  intro bs bs' h
  have hdecoded := congrArg decode h
  rw [decode_encode percent, decode_encode percent] at hdecoded
  exact Option.some.inj hdecoded

theorem encoded_encode (kept : ∀ b, keep b = true → b ∈ unreservedBytes) (bs : List UInt8) :
    Encoded (encode keep bs) := by
  induction bs with
  | nil => exact .nil
  | cons b bs ih =>
    have hlt := b.toNat_lt
    rw [encode_cons]
    split_ifs with hkeep
    · exact .unreserved (kept b hkeep) ih
    · exact .escaped (upperHex_mem (by omega)) (upperHex_mem (by omega)) ih

end Keeping

end Evi7688.Library.PercentCoding
