/- Evi7688/Libevi/InfoRows
   digest: Where the information screens land on a panel of two rows of twelve double-width cells. -/

import Evi7688.Libevi.Caption
import Evi7688.Libevi.HalTrace
import Evi7688.Library.SharedCursor

set_option autoImplicit false
set_option relaxedAutoImplicit false

namespace Evi7688.Libevi.InfoRows

open Evi7688.Library.Bytes (CString literal)
open Evi7688.Library.CharacterPanel (Pulse)
open Evi7688.Library.SharedCursor (store placed store_placed_succ)
open Hal
open Caption
open HalTrace (requested)

/-- `DDRAM_ADDR` of `displayCaptionFunc.py`: the address of the cell at a position of the panel. -/
def ddramAddr (pos : Nat) : Nat :=
  if pos < 12 then pos ||| 0x80
  else if pos < 24 then (pos - 12) ||| 0x90
  else (pos % 12) ||| (if 12 ≤ pos then 0x90 else 0x80)

/-- The text memory byte by byte, two bytes to an address, and the byte the next character goes to:
the counter runs on behind the visible part of a row. A blank byte is `none`. -/
structure Panel where
  cursor : Nat
  cells : Nat → Option UInt8

def cellStart (addr : Nat) : Nat := 2 * (addr % 0x80)

def Panel.receive (p : Panel) (x : Pulse) : Panel :=
  if x.rs then ⟨p.cursor + 1, Function.update p.cells p.cursor (some x.bus)⟩
  else if x.bus = displayClear then ⟨0, fun _ => none⟩
  else if 0x80 ≤ x.bus then { p with cursor := cellStart x.bus.toNat }
  else p

def Panel.draw (p : Panel) (ops : List HalOp) : Panel :=
  (ops.flatMap requested).foldl Panel.receive p

/-- The bytes that the cell at an address shows. -/
def Panel.cell (p : Panel) (addr : Nat) : List UInt8 :=
  [(p.cells (cellStart addr)).getD 0x20, (p.cells (cellStart addr + 1)).getD 0x20]

def Panel.row2 (p : Panel) : List UInt8 :=
  (List.range 12).flatMap fun i => p.cell (ddramAddr (12 + i))

inductive InfoScreen
  | info1 | info2 | info3 | info4
  deriving DecidableEq

def InfoScreen.call : InfoScreen → Option CString → Option CString → Ui → List HalOp × Ui
  | .info1 => eviCaptionInfo1
  | .info2 => eviCaptionInfo2
  | .info3 => eviCaptionInfo3
  | .info4 => eviCaptionInfo4

/-- The label of the second argument. -/
def InfoScreen.label : InfoScreen → String
  | .info1 => "SoC Ver:"
  | .info2 => "Prod. Name:"
  | .info3 => "Max Current:"
  | .info4 => "Max Current:"

/-- The position at which the second argument is drawn. -/
def InfoScreen.valuePos : InfoScreen → UInt8
  | .info1 => 17
  | .info2 => 18
  | .info3 => 19
  | .info4 => 19

def InfoScreen.shown (k : InfoScreen) (ui : Ui) (p : Panel) (a b : Option CString) : Panel :=
  p.draw (k.call a b ui).1

/-- Bytes from the start of the second row to its value. -/
def InfoScreen.valueStart (k : InfoScreen) : Nat := 2 * (k.valuePos.toNat - 12)

/-- The second row starts with its label, carries the second argument as far as it fits from the
value position on, and is the same whatever the first argument is. -/
structure Row2Shows (k : InfoScreen) (ui : Ui) (p : Panel) (a b : Option CString) : Prop where
  label : (literal k.label).bytes <+: (k.shown ui p a b).row2
  value : (b.getD .empty).bytes.take (24 - k.valueStart) <+:
    (k.shown ui p a b).row2.drop k.valueStart
  free : ∀ a', (k.call a' b ui).1 ≠ [] → (k.shown ui p a' b).row2 = (k.shown ui p a b).row2

def InfoScreen.firstLabel : InfoScreen → String
  | .info1 => "MCU Ver:"
  | .info2 => "SN:"
  | .info3 => "Meter Ver:"
  | .info4 => "Meter 2 Ver:"

def InfoScreen.firstPos : InfoScreen → UInt8
  | .info1 => 5
  | .info2 => 2
  | .info3 => 6
  | .info4 => 7

def InfoScreen.id : InfoScreen → Scn
  | .info1 => .info1
  | .info2 => .info2
  | .info3 => .info3
  | .info4 => .info4

theorem InfoScreen.call_eq (k : InfoScreen) (a b : Option CString) (ui : Ui) :
    k.call a b ui =
      infoScreen k.id k.firstLabel k.firstPos k.label k.valuePos a b ui := by
  cases k <;> rfl

/-- The operations of a drawing call. -/
def InfoScreen.drawn (k : InfoScreen) (a b : Option CString) : List HalOp :=
  begin ++ ([.moveDdram 0, letters k.firstLabel] ++ ([.moveDdram k.firstPos, argument a] ++
    ([.moveDdram 12, letters k.label] ++ [.moveDdram k.valuePos, argument b])))

theorem InfoScreen.call_fst (k : InfoScreen) {a b : Option CString} {ui : Ui}
    (h : (k.call a b ui).1 ≠ []) : (k.call a b ui).1 = k.drawn a b := by
  rw [k.call_eq, infoScreen] at h ⊢
  by_cases hit : ui.Hit k.id a b 0
  · rw [captionScreen_of_hit _ hit] at h
    exact absurd rfl h
  · rw [captionScreen_of_miss _ hit]
    rfl

theorem InfoScreen.call_none_draws (k : InfoScreen) (b : Option CString) (ui : Ui) :
    (k.call none b ui).1 ≠ [] := by
  have miss : ¬ ui.Hit k.id none b 0 := by
    rintro ⟨-, -, hnull, -⟩
    cases hnull
  rw [k.call_eq, infoScreen, captionScreen_of_miss _ miss]
  exact List.cons_ne_nil _ _

theorem Panel.draw_append (p : Panel) (xs ys : List HalOp) :
    p.draw (xs ++ ys) = (p.draw xs).draw ys := by
  rw [draw, List.flatMap_append, List.foldl_append]
  rfl

theorem Panel.foldl_receive_letters (p : Panel) (text : List UInt8) :
    (text.map fun x => (⟨true, x⟩ : Pulse)).foldl Panel.receive p =
      ⟨p.cursor + text.length, store p.cells (placed Nat.succ p.cursor text)⟩ := by
  induction text generalizing p with
  | nil => rfl
  | cons x text ih =>
    rw [List.map_cons, List.foldl_cons, ih]
    simp only [receive, if_true, List.length_cons, Panel.mk.injEq]
    exact ⟨by omega, rfl⟩

theorem Panel.receive_moveDdram (p : Panel) (addr : UInt8) :
    p.receive ⟨false, 0x80 ||| (addr &&& 0x7F)⟩ =
      { p with cursor := cellStart (addr.toNat % 0x80) } := by
  have hlow : (addr &&& 0x7F).toNat = addr.toNat % 0x80 :=
    (UInt8.toNat_and addr 0x7F).trans (Nat.and_two_pow_sub_one_eq_mod addr.toNat 7)
  have hcode : (0x80 ||| (addr &&& 0x7F) : UInt8).toNat = 0x80 + addr.toNat % 0x80 := by
    rw [UInt8.toNat_or, hlow]
    exact (Nat.two_pow_add_eq_or_of_lt (i := 7) (Nat.mod_lt _ (by omega)) 1).symm
  have hclear : (0x80 ||| (addr &&& 0x7F) : UInt8) ≠ displayClear := by
    intro heq
    have hone : (0x80 ||| (addr &&& 0x7F) : UInt8).toNat = 1 := congrArg UInt8.toNat heq
    omega
  have haddr : (0x80 : UInt8) ≤ 0x80 ||| (addr &&& 0x7F) := by
    rw [UInt8.le_iff_toNat_le, hcode]
    exact Nat.le_add_right _ _
  have hstart : cellStart (0x80 ||| (addr &&& 0x7F) : UInt8).toNat =
      cellStart (addr.toNat % 0x80) := by
    rw [hcode, cellStart, cellStart]
    omega
  simp only [receive, Bool.false_eq_true, if_false, if_neg hclear, if_pos haddr, hstart]

theorem Panel.draw_at (p : Panel) (addr : UInt8) (s : CString) :
    p.draw [.moveDdram addr, .writeLetters (some s)] =
      ⟨cellStart (addr.toNat % 0x80) + s.bytes.length,
        store p.cells (placed Nat.succ (cellStart (addr.toNat % 0x80)) s.bytes)⟩ := by
  have hdraw : p.draw [.moveDdram addr, .writeLetters (some s)] =
      (s.bytes.map fun x => (⟨true, x⟩ : Pulse)).foldl Panel.receive
        (p.receive ⟨false, 0x80 ||| (addr &&& 0x7F)⟩) := by
    simp [draw, requested]
  rw [hdraw, receive_moveDdram, foldl_receive_letters]

theorem Panel.draw_begin (p : Panel) : p.draw begin = ⟨0, fun _ => none⟩ := rfl

/-- What a text covers of the memory, over what was there before. -/
def covered (start : Nat) (text : List UInt8) (cells : Nat → Option UInt8) : Nat → Option UInt8 :=
  fun i => if start ≤ i ∧ i < start + text.length then text[i - start]? else cells i

/-- The memory after a drawing call: each text over the ones drawn before it. -/
theorem InfoScreen.cells_shown (k : InfoScreen) {a b : Option CString} {ui : Ui} (p : Panel)
    (h : (k.call a b ui).1 ≠ []) :
    (k.shown ui p a b).cells =
      covered (2 * k.valuePos.toNat) (b.getD .empty).bytes
        (covered 24 (literal k.label).bytes
          (covered (2 * k.firstPos.toNat) (a.getD .empty).bytes
            (covered 0 (literal k.firstLabel).bytes fun _ => none))) := by
  have hcovered : ∀ (cells : Nat → Option UInt8) (start : Nat) (text : List UInt8),
      store cells (placed Nat.succ start text) = covered start text cells := by
    intro cells start text
    funext i
    exact store_placed_succ cells start text i
  have hfirst : cellStart (k.firstPos.toNat % 0x80) = 2 * k.firstPos.toNat := by cases k <;> rfl
  have hvalue : cellStart (k.valuePos.toNat % 0x80) = 2 * k.valuePos.toNat := by cases k <;> rfl
  rw [shown, k.call_fst h, drawn]
  simp only [Panel.draw_append, Panel.draw_begin, letters, argument, Panel.draw_at, hcovered, hfirst,
    hvalue]
  rfl

theorem InfoScreen.row2_head (k : InfoScreen) {b : Option CString} {ui : Ui} (p : Panel)
    (h : (k.call none b ui).1 ≠ []) :
    (k.shown ui p none b).row2.head? = some ((literal k.label).bytes[8]?.getD 0x20) := by
  have hvalue : ¬ 2 * k.valuePos.toNat ≤ 32 := by cases k <;> decide
  have hfirst : (literal k.firstLabel).bytes.length ≤ 32 := by cases k <;> decide
  have hbare : covered (2 * k.firstPos.toNat) ((none : Option CString).getD .empty).bytes
      (covered 0 (literal k.firstLabel).bytes fun _ => none) 32 = none := by
    rw [covered, if_neg (by simp [CString.empty]), covered, if_neg (by omega)]
  have hcell : (k.shown ui p none b).cells 32 = (literal k.label).bytes[8]? := by
    rw [k.cells_shown p h, covered, if_neg (fun hc => hvalue hc.1), covered, hbare]
    split_ifs with hcovered
    · rfl
    · exact (List.getElem?_eq_none (by omega)).symm
  have hhead : (k.shown ui p none b).row2.head? =
      some (((k.shown ui p none b).cells 32).getD 0x20) := rfl
  rw [hhead, hcell]

/-- The HAL takes the position for the address, so the second label is drawn into the four cells
before the second row: whatever is shown, the row does not both start with it and ignore the first
argument. -/
theorem not_row2Shows (k : InfoScreen) (ui : Ui) (p : Panel) (a b : Option CString)
    (draws : (k.call a b ui).1 ≠ []) : ¬ Row2Shows k ui p a b := by
  rintro ⟨hlabel, -, hfree⟩
  have hdraws := k.call_none_draws b ui
  have hsame := hfree none hdraws
  rw [← hsame] at hlabel
  have hfound : (literal k.label).bytes.head? = (k.shown ui p none b).row2.head? := by
    obtain ⟨rest, hrest⟩ := hlabel
    have hsome : (literal k.label).bytes ≠ [] := by cases k <;> decide
    rw [← hrest, List.head?_append, Option.or_of_isSome]
    exact List.isSome_head?.mpr hsome
  have hother : (literal k.label).bytes.head? ≠ some ((literal k.label).bytes[8]?.getD 0x20) := by
    cases k <;> decide
  exact hother (hfound.trans (k.row2_head p hdraws))

def versionText (s : String) : Option CString := some (literal s)

theorem not_row2Shows_versions :
    ¬ Row2Shows .info1 Ui.initial ⟨0, fun _ => none⟩ (versionText "1.02") (versionText "2.10") ∧
      ¬ Row2Shows .info1 (InfoScreen.info2.call (versionText "7") (versionText "8") Ui.initial).2
        (InfoScreen.info2.shown Ui.initial ⟨0, fun _ => none⟩ (versionText "7") (versionText "8"))
        (versionText "1.02") (versionText "2.10") :=
  ⟨not_row2Shows .info1 _ _ _ _ (by decide), not_row2Shows .info1 _ _ _ _ (by decide)⟩

/-- `evi_caption_info1("1.02", "2.10")`: the label fills the cells before the second row, which
starts with a blank cell. -/
theorem info1_row2 :
    (InfoScreen.info1.call (versionText "1.02") (versionText "2.10") Ui.initial).1 ≠ [] ∧
      ¬ Row2Shows .info1 Ui.initial ⟨0, fun _ => none⟩ (versionText "1.02") (versionText "2.10") := by
  refine ⟨by decide, ?_⟩
  rintro ⟨hlabel, -, -⟩
  revert hlabel
  decide +kernel

end Evi7688.Libevi.InfoRows
