/- Evi7688/Library/JsonText
   digest: The text `json.dumps` makes of a value, with separators that have no blanks. -/

import Evi7688.Library.Numerals
import Evi7688.Library.PyText

set_option autoImplicit false
set_option relaxedAutoImplicit false

namespace Evi7688.Library.JsonText

open Evi7688.Library.Bytes (ascii)
open Evi7688.Library.Numerals (decimal mem_decimal isDigit)
open Evi7688.Library.PyText

def isPrintable (b : UInt8) : Bool := 0x20 ≤ b && b ≤ 0x7E

/-- What `float.__repr__` prints of a number, or the names of infinities and of no number. -/
structure FloatText where
  bytes : List UInt8
  printable : ∀ b ∈ bytes, isPrintable b = true

/-- The keys of a dictionary that `json.dumps` takes. -/
inductive Key
  | str (s : PyStr)
  | int (v : Int)
  | float (x : FloatText)
  | bool (b : Bool)
  | null

/-- The values `json.dumps` takes; a tuple is a list to it. -/
inductive Json
  | null
  | bool (b : Bool)
  | int (v : Int)
  | float (x : FloatText)
  | str (s : PyStr)
  | list (xs : List Json)
  | dict (fields : List (Key × Json))

def lowerHexDigit (d : Nat) : UInt8 := if d < 10 then UInt8.ofNat (0x30 + d) else UInt8.ofNat (0x57 + d)

/-- `\uXXXX` of one UTF-16 unit. -/
def escapeUnit (n : Nat) : List UInt8 :=
  ascii "\\u" ++ [lowerHexDigit (n / 0x1000 % 16), lowerHexDigit (n / 0x100 % 16),
    lowerHexDigit (n / 0x10 % 16), lowerHexDigit (n % 16)]

/-- One character of a string as `ensure_ascii` writes it. -/
def escapePoint : CodePoint → List UInt8
  | .surrogate low => escapeUnit (0xD800 + low)
  | .scalar c =>
    let n := c.toNat
    if n = 0x22 then ascii "\\\""
    else if n = 0x5C then ascii "\\\\"
    else if n = 0x0A then ascii "\\n"
    else if n = 0x0D then ascii "\\r"
    else if n = 0x09 then ascii "\\t"
    else if n = 0x0C then ascii "\\f"
    else if n = 0x08 then ascii "\\b"
    else if 0x20 ≤ n ∧ n ≤ 0x7E then [UInt8.ofNat n]
    else if n < 0x10000 then escapeUnit n
    else
      escapeUnit (0xD800 + (n - 0x10000) / 0x400) ++ escapeUnit (0xDC00 + (n - 0x10000) % 0x400)

def quote (s : PyStr) : List UInt8 := ascii "\"" ++ s.flatMap escapePoint ++ ascii "\""

def boolText (b : Bool) : List UInt8 := if b then ascii "true" else ascii "false"

def keyText : Key → List UInt8
  | .str s => quote s
  | .int v => ascii "\"" ++ decimal v ++ ascii "\""
  | .float x => ascii "\"" ++ x.bytes ++ ascii "\""
  | .bool b => ascii "\"" ++ boolText b ++ ascii "\""
  | .null => ascii "\"null\""

def separated (first : Bool) : List UInt8 := if first then [] else ascii ","

mutual

/-- `json.dumps(value, separators=(",", ":"))`. -/
def dumps : Json → List UInt8
  | .null => ascii "null"
  | .bool b => boolText b
  | .int v => decimal v
  | .float x => x.bytes
  | .str s => quote s
  | .list xs => ascii "[" ++ dumpsElements true xs ++ ascii "]"
  | .dict fields => ascii "\x7b" ++ dumpsFields true fields ++ ascii "\x7d"

def dumpsElements (first : Bool) : List Json → List UInt8
  | [] => []
  | x :: xs => separated first ++ dumps x ++ dumpsElements false xs

def dumpsFields (first : Bool) : List (Key × Json) → List UInt8
  | [] => []
  | (key, value) :: fields =>
    separated first ++ keyText key ++ ascii ":" ++ dumps value ++ dumpsFields false fields

end

/-- Every byte is a printable character: there is no line end and no NUL among them. -/
def Printable (bs : List UInt8) : Prop := ∀ b ∈ bs, isPrintable b = true

section Printing

theorem Printable.append {a b : List UInt8} (ha : Printable a) (hb : Printable b) :
    Printable (a ++ b) := by
  intro c hc
  rcases List.mem_append.mp hc with hc | hc
  · exact ha c hc
  · exact hb c hc

theorem Printable.ite {p : Prop} [Decidable p] {a b : List UInt8} (ha : p → Printable a)
    (hb : Printable b) : Printable (if p then a else b) := by
  split
  · rename_i h
    exact ha h
  · exact hb

theorem printable_of_all {bs : List UInt8} (h : bs.all isPrintable = true) : Printable bs :=
  List.all_eq_true.mp h

theorem printable_escapeUnit (n : Nat) : Printable (escapeUnit n) := by
  have hdigit : ∀ d, isPrintable (lowerHexDigit (d % 16)) = true := by
    intro d
    have table : ∀ d : Fin 16, isPrintable (lowerHexDigit d.val) = true := by
      decide
    exact table ⟨d % 16, Nat.mod_lt _ (by omega)⟩
  apply Printable.append (printable_of_all rfl)
  intro b hb
  simp only [List.mem_cons, List.not_mem_nil, or_false] at hb
  rcases hb with rfl | rfl | rfl | rfl <;> exact hdigit _

theorem printable_escapePoint (p : CodePoint) : Printable (escapePoint p) := by
  cases p with
  | surrogate low => exact printable_escapeUnit _
  | scalar c =>
    simp only [escapePoint]
    apply Printable.ite fun _ => printable_of_all rfl
    apply Printable.ite fun _ => printable_of_all rfl
    apply Printable.ite fun _ => printable_of_all rfl
    apply Printable.ite fun _ => printable_of_all rfl
    apply Printable.ite fun _ => printable_of_all rfl
    apply Printable.ite fun _ => printable_of_all rfl
    apply Printable.ite fun _ => printable_of_all rfl
    refine Printable.ite (fun hrange => ?_) ?_
    · intro b hb
      obtain rfl := List.mem_singleton.mp hb
      have hbyte : (UInt8.ofNat c.toNat).toNat = c.toNat := by
        rw [UInt8.toNat_ofNat']
        omega
      simp only [isPrintable, Bool.and_eq_true, decide_eq_true_eq, UInt8.le_iff_toNat_le, hbyte]
      exact hrange
    · apply Printable.ite fun _ => printable_escapeUnit _
      exact (printable_escapeUnit _).append (printable_escapeUnit _)

theorem printable_quote (s : PyStr) : Printable (quote s) := by
  have hquote : Printable (ascii "\"") := printable_of_all rfl
  refine (hquote.append ?_).append hquote
  intro b hb
  obtain ⟨p, -, hp⟩ := List.mem_flatMap.mp hb
  exact printable_escapePoint p b hp

theorem printable_decimal (v : Int) : Printable (decimal v) := by
  intro b hb
  have table : ∀ n : Fin 256, UInt8.ofNat n.val = 0x2D ∨ isDigit (UInt8.ofNat n.val) = true →
      isPrintable (UInt8.ofNat n.val) = true := by
    decide +kernel
  have hbyte := table ⟨b.toNat, b.toNat_lt⟩
  rw [UInt8.ofNat_toNat] at hbyte
  exact hbyte (mem_decimal b hb)

theorem printable_boolText (b : Bool) : Printable (boolText b) := by
  cases b <;> exact printable_of_all rfl

theorem printable_keyText (key : Key) : Printable (keyText key) := by
  have hquote : Printable (ascii "\"") := printable_of_all rfl
  cases key with
  | str s => exact printable_quote s
  | int v => exact (hquote.append (printable_decimal v)).append hquote
  | float x => exact (hquote.append x.printable).append hquote
  | bool b => exact (hquote.append (printable_boolText b)).append hquote
  | null => exact printable_of_all rfl

theorem printable_separated (first : Bool) : Printable (separated first) := by
  cases first <;> exact printable_of_all rfl

mutual

theorem printable_dumps : ∀ value : Json, Printable (dumps value)
  | .null => printable_of_all rfl
  | .bool b => printable_boolText b
  | .int v => printable_decimal v
  | .float x => x.printable
  | .str s => printable_quote s
  | .list xs => by
    have hopen : Printable (ascii "[") := printable_of_all rfl
    have hclose : Printable (ascii "]") := printable_of_all rfl
    exact (hopen.append (printable_dumpsElements true xs)).append hclose
  | .dict fields => by
    have hopen : Printable (ascii "\x7b") := printable_of_all rfl
    have hclose : Printable (ascii "\x7d") := printable_of_all rfl
    exact (hopen.append (printable_dumpsFields true fields)).append hclose

theorem printable_dumpsElements (first : Bool) :
    ∀ xs : List Json, Printable (dumpsElements first xs)
  | [] => nofun
  | x :: xs =>
    ((printable_separated first).append (printable_dumps x)).append
      (printable_dumpsElements false xs)

theorem printable_dumpsFields (first : Bool) :
    ∀ fields : List (Key × Json), Printable (dumpsFields first fields)
  | [] => nofun
  | (key, value) :: fields => by
    have hcolon : Printable (ascii ":") := printable_of_all rfl
    exact ((((printable_separated first).append (printable_keyText key)).append hcolon).append
      (printable_dumps value)).append (printable_dumpsFields false fields)

end

end Printing

end Evi7688.Library.JsonText
