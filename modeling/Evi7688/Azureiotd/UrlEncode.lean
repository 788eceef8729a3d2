/- Evi7688/Azureiotd/UrlEncode
   digest: The two passes of url_encode: one sizes the buffer, the other fills it. -/

import Evi7688.Azureiotd.SasToken
import Evi7688.Library.BoundedWriter
import Evi7688.Library.PercentCoding

set_option autoImplicit false
set_option relaxedAutoImplicit false

namespace Evi7688.Azureiotd.UrlEncode

open Evi7688.Library.Bytes (CString ascii toNat_upper toNat_lower)
open Evi7688.Library.BoundedWriter (BufferWriter)
open Evi7688.Library.PercentCoding
open SasToken (unreserved)

def hexDigit (v : UInt8) : UInt8 := (ascii "0123456789ABCDEF").getD (v &&& 0xF).toNat 0

/-- The first loop: the bytes to allocate, less the terminator. -/
def countPass : List UInt8 → Nat → Nat
  | [], n => n
  | p :: rest, n =>
    if (0x41 ≤ p && p ≤ 0x5A) || (0x61 ≤ p && p ≤ 0x7A) || (0x30 ≤ p && p ≤ 0x39) ||
        p == 0x2D || p == 0x5F || p == 0x2E || p == 0x7E then
      countPass rest (n + 1)
    else countPass rest (n + 3)

/-- The second loop, with its own copy of the condition. A write behind the buffer is `none`. -/
def writePass {cap : Nat} : List UInt8 → BufferWriter UInt8 cap → Option (BufferWriter UInt8 cap)
  | [], w => some w
  | p :: rest, w =>
    if (0x41 ≤ p && p ≤ 0x5A) || (0x61 ≤ p && p ≤ 0x7A) || (0x30 ≤ p && p ≤ 0x39) ||
        p == 0x2D || p == 0x5F || p == 0x2E || p == 0x7E then
      (w.put p).bind (writePass rest)
    else
      (w.put 0x25).bind fun w => (w.put (hexDigit (p >>> 4))).bind fun w =>
        (w.put (hexDigit (p &&& 0xF))).bind (writePass rest)

/-- What `url_encode` leaves in the buffer it allocates, terminator included. -/
def urlEncodeBuffer (s : CString) : Option (List UInt8) :=
  let filled := writePass s.bytes (.fresh : BufferWriter UInt8 (countPass s.bytes 0 + 1))
  (filled.bind (·.put 0)).map (·.written)

theorem mem_unreservedBytes {p : UInt8} (h : unreserved p = true) : p ∈ unreservedBytes := by
  have table : ∀ n : Fin 256, unreserved (UInt8.ofNat n.val) = true →
      UInt8.ofNat n.val ∈ unreservedBytes := by
    decide +kernel
  simpa using table ⟨p.toNat, p.toNat_lt⟩ (by simpa using h)

theorem hexDigit_eq (v : UInt8) : hexDigit v = upperHex (v.toNat % 16) := by
  rw [hexDigit, toNat_lower]
  rfl

theorem escape_eq (p : UInt8) : escape p = [0x25, hexDigit (p >>> 4), hexDigit (p &&& 0xF)] := by
  have hlt := p.toNat_lt
  rw [hexDigit_eq, hexDigit_eq, toNat_upper, toNat_lower, Nat.mod_mod, Nat.mod_eq_of_lt (by omega)]
  rfl

theorem urlEncode_eq (s : List UInt8) : SasToken.urlEncode s = encode unreserved s := by
  have digits : ∀ i : Fin 16, Evi7688.Library.Numerals.hexDigit (UInt8.ofNat i.val) =
      hexDigit (UInt8.ofNat i.val) := by
    decide
  have hdigit : ∀ {v : UInt8}, v.toNat < 16 →
      Evi7688.Library.Numerals.hexDigit v = hexDigit v := by
    intro v h
    simpa using digits ⟨v.toNat, h⟩
  have hbyte : ∀ p : UInt8, [0x25, Evi7688.Library.Numerals.hexDigit (p >>> 4),
      Evi7688.Library.Numerals.hexDigit (p &&& 0xF)] = escape p := by
    intro p
    have hlt := p.toNat_lt
    have hhigh : (p >>> 4).toNat < 16 := by
      rw [toNat_upper]
      omega
    have hlow : (p &&& 0xF).toNat < 16 := by
      rw [toNat_lower]
      omega
    rw [escape_eq, hdigit hhigh, hdigit hlow]
  simp only [SasToken.urlEncode, encode, hbyte]

theorem countPass_eq (s : List UInt8) : countPass s 0 = SasToken.urlEncodeCount s := by
  have hfrom : ∀ n, countPass s n =
      s.foldl (fun n p => if unreserved p then n + 1 else n + 3) n := by
    induction s with
    | nil => exact fun _ => rfl
    | cons p s ih =>
      intro n
      rw [List.foldl_cons]
      by_cases h : unreserved p = true
      · have hkept : countPass (p :: s) n = countPass s (n + 1) := if_pos h
        rw [hkept, if_pos h, ih]
      · have hescaped : countPass (p :: s) n = countPass s (n + 3) := if_neg h
        rw [hescaped, if_neg h, ih]
  exact hfrom 0

theorem writePass_eq {cap : Nat} (s : List UInt8) (w : BufferWriter UInt8 cap) :
    writePass s w = w.puts (encode unreserved s) := by
  induction s generalizing w with
  | nil => rfl
  | cons p s ih =>
    have htail : writePass s = fun w : BufferWriter UInt8 cap => w.puts (encode unreserved s) :=
      funext ih
    rw [encode_cons, BufferWriter.puts_append]
    by_cases h : unreserved p = true
    · have hkept : writePass (p :: s) w = (w.put p).bind (writePass s) := if_pos h
      rw [hkept, if_pos h, BufferWriter.puts_singleton, htail]
    · have hescaped : writePass (p :: s) w = (w.put 0x25).bind fun w =>
          (w.put (hexDigit (p >>> 4))).bind fun w =>
            (w.put (hexDigit (p &&& 0xF))).bind (writePass s) := if_neg h
      rw [hescaped, if_neg h, escape_eq, htail]
      simp only [BufferWriter.puts, Option.bind_assoc, Option.bind_some]

theorem urlEncodeBuffer_eq (s : CString) :
    urlEncodeBuffer s = some (encode unreserved s.bytes ++ [0]) := by
  have hcount : countPass s.bytes 0 + 1 = (encode unreserved s.bytes ++ [0]).length := by
    rw [countPass_eq, ← SasToken.length_urlEncode, urlEncode_eq, List.length_append,
      List.length_singleton]
  have hfilled : (BufferWriter.fresh : BufferWriter UInt8 (countPass s.bytes 0 + 1)).puts
      (encode unreserved s.bytes ++ [0]) = some _ := BufferWriter.fresh_puts hcount.ge
  rw [BufferWriter.puts_append] at hfilled
  simp only [BufferWriter.puts_singleton] at hfilled
  simp only [urlEncodeBuffer, writePass_eq, hfilled, Option.map_some]

/-- The passes agree, and what the second one writes, the text of the token, is a faithful encoding
of the string. -/
theorem urlEncode_faithful (s : CString) :
    urlEncodeBuffer s = some (SasToken.urlEncode s.bytes ++ [0]) ∧
      (SasToken.urlEncode s.bytes).length = countPass s.bytes 0 ∧
      Encoded (SasToken.urlEncode s.bytes) ∧
      decode (SasToken.urlEncode s.bytes) = some s.bytes ∧
      ∀ t : CString, urlEncodeBuffer t = urlEncodeBuffer s → t = s := by
  have percent : unreserved 0x25 = false := rfl
  refine ⟨?_, ?_, ?_, ?_, ?_⟩
  · rw [urlEncodeBuffer_eq, urlEncode_eq]
  · rw [SasToken.length_urlEncode, countPass_eq]
  · rw [urlEncode_eq]
    exact encoded_encode (fun _ hb => mem_unreservedBytes hb) s.bytes
  · rw [urlEncode_eq]
    exact decode_encode percent s.bytes
  · intro t h
    rw [urlEncodeBuffer_eq, urlEncodeBuffer_eq, Option.some.injEq, List.append_cancel_right_eq] at h
    exact CString.ext (encode_injective percent h)

end Evi7688.Azureiotd.UrlEncode
