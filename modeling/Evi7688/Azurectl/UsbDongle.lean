/- Evi7688/Azurectl/UsbDongle
   digest: One exchange with the relay dongle and when it counts as a success. -/

import Evi7688.Azurectl.Main

set_option autoImplicit false
set_option relaxedAutoImplicit false

namespace Evi7688.Azurectl.UsbDongle

open Evi7688.Library.Bytes (ascii newline)
open Main (Act)

/-- What the calls of one exchange come back with: `answer i` is what waits for read number `i`. -/
structure Exchange where
  found : Bool
  opened : Bool
  settingWritten : Int
  queryWritten : Int
  answer : Nat → List UInt8

def normalClose : List UInt8 := [0, 1, 1, 1]

/-- The `A0` message that puts one relay into a position. -/
def setting (act : Act) (port : Int) : List UInt8 :=
  let val : UInt8 := if act = .on then 1 else 0
  let real := val ^^^ normalClose.getD (port.toNat - 1) 0
  [0xA0, UInt8.ofInt port, real, 0xA0 + UInt8.ofInt port + real]

def query : List UInt8 := [0xFF]

/-- The read loop, with `tries` rounds left and `resp` in its buffer of 128 bytes. -/
def readAnswer (answer : Nat → List UInt8) : Nat → Nat → List UInt8 → List UInt8
  | 0, _, resp => resp
  | tries + 1, i, resp =>
    let n := (answer i).take (128 - resp.length)
    if n ≠ [] then
      if 40 ≤ (resp ++ n).length ∧ 4 ≤ (resp ++ n).count newline then resp ++ n
      else if 128 ≤ (resp ++ n).length then resp ++ n
      else readAnswer answer tries (i + 1) (resp ++ n)
    else if 40 ≤ resp.length then resp
    else readAnswer answer tries (i + 1) resp

/-- `usb_set_port`: its result, and the messages it handed to `serial_write`. -/
def usbSetPort (e : Exchange) (act : Act) (port : Int) : Int × List (List UInt8) :=
  if port < 1 ∨ 4 < port then (-10, [])
  else if ¬ e.found then (-1, [])
  else if ¬ e.opened then (-2, [])
  else if e.settingWritten ≠ 4 then (-3, [setting act port])
  else if e.queryWritten ≠ 1 then (-4, [setting act port, query])
  else
    (if 40 ≤ (readAnswer e.answer 20 0 []).length then 0 else -5, [setting act port, query])

/-- The dongle took both messages and answered at least 40 bytes within the twenty reads. -/
structure Exchange.Succeeds (e : Exchange) : Prop where
  found : e.found = true
  opened : e.opened = true
  settingWritten : e.settingWritten = 4
  queryWritten : e.queryWritten = 1
  answered : 40 ≤ ((List.range 20).map fun i => (e.answer i).length).sum

/-- The loop only leaves early with 40 bytes at hand, so it gets them exactly if they come. -/
theorem readAnswer_enough_iff (answer : Nat → List UInt8) (tries i : Nat) (resp : List UInt8)
    (room : resp.length < 128) :
    40 ≤ (readAnswer answer tries i resp).length ↔
      40 ≤ resp.length + ((List.range' i tries).map fun j => (answer j).length).sum := by
  induction tries generalizing i resp with
  | zero => simp [readAnswer]
  | succ tries ih =>
    have hgrown : (resp ++ (answer i).take (128 - resp.length)).length =
        resp.length + min (128 - resp.length) (answer i).length := by
      rw [List.length_append, List.length_take]
    simp only [readAnswer, List.range'_succ, List.map_cons, List.sum_cons]
    split_ifs with hread henough hfull hlong
    · obtain ⟨hbytes, -⟩ := henough
      omega
    · omega
    · rw [ih (i + 1) _ (by omega), hgrown]
      omega
    · omega
    · have hsilent : answer i = [] := by
        have hlength := congrArg List.length (not_not.mp hread)
        rw [List.length_take, List.length_nil] at hlength
        exact List.length_eq_zero_iff.mp (by omega)
      rw [ih (i + 1) resp room, hsilent]
      simp

theorem usbSetPort_eq_zero_iff (e : Exchange) (act : Act) {port : Int} (lower : 1 ≤ port)
    (upper : port ≤ 4) : (usbSetPort e act port).1 = 0 ↔ e.Succeeds := by
  have hanswer := readAnswer_enough_iff e.answer 20 0 [] (by decide)
  rw [List.length_nil, Nat.zero_add, ← List.range_eq_range'] at hanswer
  unfold usbSetPort
  rw [if_neg (by omega)]
  constructor
  · intro h
    split_ifs at h with hfound hopened hsetting hquery henough
    · exact absurd h (by simp)
    · exact absurd h (by simp)
    · exact ⟨hfound, hopened, not_not.mp hsetting, not_not.mp hquery, hanswer.mp henough⟩
    · exact absurd h (by simp)
    · exact absurd h (by simp)
    · exact absurd h (by simp)
  · intro h
    simp [h.found, h.opened, h.settingWritten, h.queryWritten, hanswer.mpr h.answered]

/-- What the buffer holds after `k` reads that all found room in it. -/
def collected (answer : Nat → List UInt8) (k : Nat) : List UInt8 :=
  ((List.range k).flatMap answer).take 128

theorem collected_succ {answer : Nat → List UInt8} {k : Nat}
    (room : (collected answer k).length < 128) :
    collected answer (k + 1) =
      collected answer k ++ (answer k).take (128 - (collected answer k).length) := by
  have hwhole : collected answer k = (List.range k).flatMap answer := by
    apply List.take_of_length_le
    rw [collected, List.length_take] at room
    omega
  rw [hwhole, collected, List.range_succ, List.flatMap_append, List.take_append, List.flatMap_cons,
    List.flatMap_nil, List.append_nil]
  rw [hwhole] at room
  rw [List.take_of_length_le (by omega)]

/-- One of the ways out of the loop after `k` reads, of at most `bound`. -/
def Exits (answer : Nat → List UInt8) (bound k : Nat) : Prop :=
  4 ≤ (collected answer k).count newline ∨ (collected answer k).length = 128 ∨
    (∃ j, k = j + 1 ∧ answer j = []) ∨ k = bound

theorem readAnswer_exits (answer : Nat → List UInt8) (tries i : Nat)
    (room : (collected answer i).length < 128) :
    ∃ k, k ≤ i + tries ∧ readAnswer answer tries i (collected answer i) = collected answer k ∧
      (40 ≤ (collected answer k).length → Exits answer (i + tries) k) := by
  induction tries generalizing i with
  | zero => exact ⟨i, Nat.le_refl i, rfl, fun _ => Or.inr (Or.inr (Or.inr rfl))⟩
  | succ tries ih =>
    have hnext := collected_succ room
    simp only [readAnswer, ← hnext]
    split_ifs with hread henough hfull hlong
    · exact ⟨i + 1, by omega, rfl, fun _ => Or.inl henough.2⟩
    · refine ⟨i + 1, by omega, rfl, fun _ => Or.inr (Or.inl ?_)⟩
      have hmost : (collected answer (i + 1)).length ≤ 128 := List.length_take_le _ _
      omega
    · have hrest := ih (i + 1) (by omega)
      rwa [Nat.add_right_comm] at hrest
    · have hsilent : answer i = [] := by
        have hlength := congrArg List.length (not_not.mp hread)
        rw [List.length_take, List.length_nil] at hlength
        exact List.length_eq_zero_iff.mp (by omega)
      have hsame : collected answer (i + 1) = collected answer i := by
        rw [hnext, hsilent, List.take_nil, List.append_nil]
      exact ⟨i + 1, by omega, hsame.symm, fun _ => Or.inr (Or.inr (Or.inl ⟨i, rfl, hsilent⟩))⟩
    · have hsame : collected answer (i + 1) = collected answer i := by
        rw [hnext, not_not.mp hread, List.append_nil]
      have hrest := ih (i + 1) (by rw [hsame]; exact room)
      rwa [hsame, Nat.add_right_comm] at hrest

/-- Success means 40 bytes; the four lines are there unless the loop ended another way. -/
theorem usbSetPort_zero_collects (e : Exchange) (act : Act) (port : Int)
    (h : (usbSetPort e act port).1 = 0) :
    ∃ k, k ≤ 20 ∧ readAnswer e.answer 20 0 [] = collected e.answer k ∧
      40 ≤ (collected e.answer k).length ∧ Exits e.answer 20 k := by
  obtain ⟨k, hk, hread, hexits⟩ := readAnswer_exits e.answer 20 0 (by simp [collected])
  rw [Nat.zero_add] at hk hexits
  have hread' : readAnswer e.answer 20 0 [] = collected e.answer k := hread
  have henough : 40 ≤ (collected e.answer k).length := by
    rw [← hread']
    unfold usbSetPort at h
    split_ifs at h with hport hfound hopened hsetting hquery henough
    · exact absurd h (by simp)
    · exact absurd h (by simp)
    · exact absurd h (by simp)
    · exact henough
    · exact absurd h (by simp)
    · exact absurd h (by simp)
    · exact absurd h (by simp)
  exact ⟨k, hk, hread', henough, hexits henough⟩

def statusLines : List UInt8 :=
  ascii "CH1: OFF\r\nCH2: OFF\r\nCH3: OFF\r\nCH4: OFF\r\n"

def exchangeOf (answer : Nat → List UInt8) : Exchange where
  found := true
  opened := true
  settingWritten := 4
  queryWritten := 1
  answer := answer

/-- The status in two pieces. -/
def inTwoPieces (i : Nat) : List UInt8 :=
  if i = 0 then statusLines.take 25 else if i = 1 then statusLines.drop 25 else []

theorem status_collected :
    ∃ k, k ≤ 20 ∧ readAnswer (exchangeOf inTwoPieces).answer 20 0 [] =
        collected (exchangeOf inTwoPieces).answer k ∧
      40 ≤ (collected (exchangeOf inTwoPieces).answer k).length ∧
      Exits (exchangeOf inTwoPieces).answer 20 k :=
  usbSetPort_zero_collects (exchangeOf inTwoPieces) .on 1 (by decide +kernel)

/-- A stray byte before the status, whose last line feed has not come yet. -/
def strayByte (i : Nat) : List UInt8 := if i = 0 then 0x00 :: statusLines.take 39 else []

theorem stray_byte_accepted :
    (usbSetPort (exchangeOf strayByte) .on 1).1 = 0 ∧
      ¬ 4 ≤ (readAnswer (exchangeOf strayByte).answer 20 0 []).count newline := by
  decide +kernel

end Evi7688.Azurectl.UsbDongle
