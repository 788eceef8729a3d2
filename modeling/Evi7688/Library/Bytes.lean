/- Evi7688/Library/Bytes
   digest: Byte strings, NUL-terminated strings and the bounded copies of the C library. -/

import Mathlib.Tactic.Common
import Mathlib.Data.List.TakeWhile

set_option autoImplicit false
set_option relaxedAutoImplicit false

namespace Evi7688.Library.Bytes

def ascii (s : String) : List UInt8 := s.toList.map fun c => UInt8.ofNat c.toNat

def newline : UInt8 := 0x0A

theorem toNat_upper (b : UInt8) : (b >>> 4).toNat = b.toNat / 16 := by
  rw [UInt8.toNat_shiftRight]
  exact Nat.shiftRight_eq_div_pow b.toNat 4

theorem toNat_lower (b : UInt8) : (b &&& 0x0F).toNat = b.toNat % 16 :=
  (UInt8.toNat_and b 0x0F).trans (Nat.and_two_pow_sub_one_eq_mod b.toNat 4)

/-- A string as C hands it around: its bytes without the terminating NUL. -/
structure CString where
  bytes : List UInt8
  nulFree : (0 : UInt8) ∉ bytes
  deriving DecidableEq

/-- A terminated string stored in an array `char[n]`. -/
structure CArray (n : Nat) extends CString where
  fits : bytes.length < n
  deriving DecidableEq

@[ext] theorem CString.ext {s t : CString} (h : s.bytes = t.bytes) : s = t := by
  cases s
  cases t
  simpa using h

def CString.empty : CString := ⟨[], by simp⟩

def literal (s : String) : CString :=
  ⟨(ascii s).takeWhile (· != 0), fun h => by simpa using List.mem_takeWhile_imp h⟩

/-- `strncpy` into `char[n + 1]` with the last byte cleared: the first `n` bytes. -/
def CString.truncate (n : Nat) (s : CString) : CString :=
  ⟨s.bytes.take n, fun h => s.nulFree (List.mem_of_mem_take h)⟩

/-- The string `snprintf` leaves in a buffer of `size` bytes, given the text it formats. -/
def snprintf (size : Nat) (text : List UInt8) : List UInt8 := text.take (size - 1)

/-- The string `fgets` leaves in a buffer of `size` bytes: at most one line of the text. -/
def fgets (size : Nat) (text : List UInt8) : List UInt8 :=
  let line := text.takeWhile (· != newline)
  ((line ++ (text.drop line.length).take 1).take (size - 1)).takeWhile (· != 0)

theorem snprintf_eq_self {size : Nat} {text : List UInt8} (h : text.length < size) :
    snprintf size text = text :=
  List.take_of_length_le (by omega)

@[simp] theorem CString.truncate_bytes (n : Nat) (s : CString) :
    (s.truncate n).bytes = s.bytes.take n := rfl

/-- `strncpy` into `char[n]` with the last byte cleared, or a cleared array for a null pointer. -/
def CArray.copy (n : Nat) (h : 0 < n) (s : Option CString) : CArray n where
  toCString := (s.getD .empty).truncate (n - 1)
  fits := by
    simp only [CString.truncate_bytes, List.length_take]
    omega

theorem CArray.ext_bytes {n : Nat} {s t : CArray n} (h : s.bytes = t.bytes) : s = t := by
  cases s
  cases t
  simpa using CString.ext h

theorem CArray.copy_toCString {n : Nat} (h : 0 < n) (s : CArray n) :
    CArray.copy n h (some s.toCString) = s := by
  apply CArray.ext_bytes
  have hfits := s.fits
  apply List.take_of_length_le
  simp only [Option.getD_some]
  omega

end Evi7688.Library.Bytes
