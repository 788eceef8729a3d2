/- Evi7688/Library/PyText
   digest: Python strings as code points, with the UTF-8 codec and its two ways of treating errors. -/

import Evi7688.Library.Bytes

set_option autoImplicit false
set_option relaxedAutoImplicit false

namespace Evi7688.Library.PyText

/-- A code point of a Python string: lone surrogates are code points too. -/
inductive CodePoint
  | scalar (c : Char)
  | surrogate (low : Fin 0x800)
  deriving DecidableEq

abbrev PyStr := List CodePoint

def ofAscii (bytes : List UInt8) : PyStr := bytes.map fun b => .scalar (Char.ofNat b.toNat)

/-- `s.encode('utf-8', 'ignore')`. -/
def encodeIgnore (s : PyStr) : List UInt8 :=
  s.flatMap fun
    | .scalar c => String.utf8EncodeChar c
    | .surrogate _ => []

/-- `s.encode('utf-8')`, which raises on a surrogate. -/
def encode (s : PyStr) : Option (List UInt8) :=
  if s.any (fun p => p matches .surrogate _) then none else some (encodeIgnore s)

/-- The decoder, with `skip` bytes still to go of the character emitted last. -/
def decodeFrom : Nat → List UInt8 → PyStr
  | _, [] => []
  | skip + 1, _ :: bs => decodeFrom skip bs
  | 0, b :: bs =>
    match (ByteArray.mk (b :: bs).toArray).utf8DecodeChar? 0 with
    | some c => .scalar c :: decodeFrom (c.utf8Size - 1) bs
    | none => decodeFrom 0 bs

/-- `b.decode('utf-8', 'ignore')`: bytes that start no character are left out. -/
def decodeIgnore (b : List UInt8) : PyStr := decodeFrom 0 b

theorem surrogate_notMem_decodeFrom (low : Fin 0x800) (skip : Nat) (b : List UInt8) :
    .surrogate low ∉ decodeFrom skip b := by
  induction b generalizing skip with
  | nil => simp [decodeFrom]
  | cons x b ih =>
    cases skip with
    | succ skip => exact ih skip
    | zero =>
      rw [decodeFrom]
      split
      · rename_i c _
        rw [List.mem_cons, not_or]
        exact ⟨CodePoint.noConfusion, ih _⟩
      · exact ih 0

theorem encode_decodeIgnore (b : List UInt8) :
    encode (decodeIgnore b) = some (encodeIgnore (decodeIgnore b)) := by
  rw [encode, if_neg]
  rw [List.any_eq_true]
  rintro ⟨p, hp, hsurrogate⟩
  cases p with
  | scalar c => cases hsurrogate
  | surrogate low => exact surrogate_notMem_decodeFrom low 0 b hp

theorem encodeIgnore_ofAscii {bytes : List UInt8} (h : ∀ b ∈ bytes, b < 0x80) :
    encodeIgnore (ofAscii bytes) = bytes := by
  have table : ∀ n : Fin 128, String.utf8EncodeChar (Char.ofNat n.val) = [UInt8.ofNat n.val] := by
    decide +kernel
  induction bytes with
  | nil => rfl
  | cons b bytes ih =>
    have hb : b.toNat < 128 := UInt8.lt_iff_toNat_lt.mp (h b List.mem_cons_self)
    have hone := table ⟨b.toNat, hb⟩
    rw [UInt8.ofNat_toNat] at hone
    have hrest := ih fun c hc => h c (List.mem_cons_of_mem _ hc)
    have hsplit : encodeIgnore (ofAscii (b :: bytes)) =
        String.utf8EncodeChar (Char.ofNat b.toNat) ++ encodeIgnore (ofAscii bytes) := rfl
    rw [hsplit, hone, hrest, List.singleton_append]

theorem encode_ofAscii {bytes : List UInt8} (h : ∀ b ∈ bytes, b < 0x80) :
    encode (ofAscii bytes) = some bytes := by
  rw [encode, if_neg, encodeIgnore_ofAscii h]
  simp [ofAscii]

end Evi7688.Library.PyText
