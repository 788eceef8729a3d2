/- Evi7688/Azurectl/Uci
   digest: The configuration store as the control program sees it, and integers kept in it as text. -/

import Evi7688.Library.Numerals
import Mathlib.Data.List.DropRight
import Mathlib.Logic.Function.Basic

set_option autoImplicit false
set_option relaxedAutoImplicit false

namespace Evi7688.Azurectl.Uci

open Evi7688.Library.Bytes (newline fgets snprintf)
open Evi7688.Library.Numerals

/-- The values `uci get` sees by key, and those committed so far. -/
structure UciStore where
  values : List UInt8 → Option (List UInt8)
  committed : List UInt8 → Option (List UInt8)

/-- The loop that clears line ends at the end of the buffer. -/
def stripEol (buf : List UInt8) : List UInt8 := buf.rdropWhile fun b => b == 0x0A || b == 0x0D

/-- `uci_get` with a buffer of `size` bytes: nothing is printed for a missing option. -/
def uciGet (size : Nat) (value : Option (List UInt8)) : Option (List UInt8) :=
  value.map fun text => stripEol (fgets size (text ++ [newline]))

/-- `uci_get_int` on the value of its key. -/
def uciGetInt (value : Option (List UInt8)) : Int :=
  match uciGet 64 value with
  | none => -1
  | some buf => (scanInt buf).getD (-1)

def intText (v : Int) : List UInt8 := snprintf 64 (decimal v)

def uciSetInt (key : List UInt8) (v : Int) (st : UciStore) : UciStore :=
  { st with values := Function.update st.values key (some (intText v)) }

def uciCommit (st : UciStore) : UciStore := { st with committed := st.values }

theorem uciGetInt_range (value : Option (List UInt8)) :
    -2 ^ 31 ≤ uciGetInt value ∧ uciGetInt value < 2 ^ 31 := by
  unfold uciGetInt
  split
  · decide
  · rename_i buf _
    cases hscan : scanInt buf with
    | none => decide
    | some v => exact scanInt_range hscan

private theorem decimal_plain {v : Int} : ∀ b ∈ decimal v, b ≠ 0 ∧ b ≠ 0x0A ∧ b ≠ 0x0D := by
  intro b hb
  rcases mem_decimal b hb with rfl | hd
  · decide
  · refine ⟨?_, ?_, ?_⟩ <;> rintro rfl <;> cases hd

theorem stripEol_fgets {size : Nat} {text : List UInt8} (hsize : text.length + 1 < size)
    (plain : ∀ b ∈ text, b ≠ 0 ∧ b ≠ 0x0A ∧ b ≠ 0x0D) :
    stripEol (fgets size (text ++ [newline])) = text := by
  have hline : (text ++ [newline]).takeWhile (· != newline) = text := by
    have hall : ∀ b ∈ text, (b != newline) = true := by
      intro b hb
      exact bne_iff_ne.mpr (plain b hb).2.1
    rw [List.takeWhile_append_of_pos hall]
    simp
  have hread : fgets size (text ++ [newline]) = text ++ [newline] := by
    have hnul : ∀ b ∈ text ++ [newline], (b != 0) = true := by
      intro b hb
      rcases List.mem_append.mp hb with hb | hb
      · simpa using (plain b hb).1
      · obtain rfl := List.mem_singleton.mp hb
        decide
    have htail : ((text ++ [newline]).drop text.length).take 1 = [newline] := by
      rw [List.drop_left]
      rfl
    have htake : (text ++ [newline]).take (size - 1) = text ++ [newline] := by
      apply List.take_of_length_le
      rw [List.length_append, List.length_singleton]
      omega
    simp only [fgets, hline, htail, htake]
    exact List.takeWhile_eq_self_iff.mpr hnul
  have hlast : ∀ hne : text ≠ [], ¬ (text.getLast hne == 0x0A || text.getLast hne == 0x0D) = true := by
    intro hne
    obtain ⟨-, hlf, hcr⟩ := plain _ (List.getLast_mem hne)
    simp [hlf, hcr]
  rw [hread, stripEol, List.rdropWhile_concat_pos _ _ _ (by decide)]
  exact List.rdropWhile_eq_self_iff.mpr hlast

theorem uciGetInt_intText {v : Int} (lower : -2 ^ 31 ≤ v) (upper : v < 2 ^ 31) :
    uciGetInt (some (intText v)) = v := by
  have hlen := length_decimal_le lower upper
  have htext : intText v = decimal v := List.take_of_length_le (by omega)
  have hstrip := stripEol_fgets (by omega : (decimal v).length + 1 < 64) decimal_plain
  simp only [uciGetInt, uciGet, Option.map_some, htext, hstrip, scanInt_decimal v lower upper,
    Option.getD_some]

end Evi7688.Azurectl.Uci
