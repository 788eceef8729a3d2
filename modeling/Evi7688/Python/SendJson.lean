/- Evi7688/Python/SendJson
   digest: The two ways `evi_azure.send` has to the daemon's socket, and when they write the same. -/

import Evi7688.Library.JsonText

set_option autoImplicit false
set_option relaxedAutoImplicit false

namespace Evi7688.Python.SendJson

open Evi7688.Library.Bytes (ascii newline snprintf)
open Evi7688.Library.JsonText
open Evi7688.Library.PyText

/-- The daemon's side of one request: whether it takes the connection, and what it answers. -/
structure Daemon where
  connects : Bool
  answer : List UInt8

/-- `send_cmd` of the C library: its result and the bytes it wrote. -/
def sendCmd (daemon : Daemon) (cmd : List UInt8) : Int × List UInt8 :=
  if daemon.connects then
    let buf := daemon.answer.take 127
    (if buf = [] then -3 else if ascii "OK" <+: buf then 0 else -4, cmd ++ [newline])
  else (-2, [])

def eviAzureSendJson (daemon : Daemon) (json : List UInt8) : Int × List UInt8 :=
  sendCmd daemon (snprintf 4096 (ascii "SEND " ++ json))

/-- `_send_sock`, whose result is -1 on any exception. -/
def sendSock (daemon : Daemon) (line : PyStr) : Int × List UInt8 :=
  if daemon.connects then
    let data := daemon.answer.take 128
    (if data ≠ [] ∧ ascii "OK" <+: data then 0 else -1,
      encodeIgnore (line ++ ofAscii (ascii "\n")))
  else (-1, [])

/-- `send`, with the library loaded or without it. C sees the bytes before the first NUL. -/
def send (lib : Bool) (daemon : Daemon) (payload : List (Key × Json)) : Option (Int × List UInt8) :=
  let js := ofAscii (dumps (.dict payload))
  if lib then
    (encode js).map fun bytes => eviAzureSendJson daemon (bytes.takeWhile (· != 0))
  else some (sendSock daemon (ofAscii (ascii "SEND ") ++ js))

/-- The request of the protocol: the command, the whole text and one line end. -/
def request (payload : List (Key × Json)) : List UInt8 :=
  ascii "SEND " ++ dumps (.dict payload) ++ [newline]

/-- On both ways, a daemon that takes the connection gets the whole request. -/
def WritesRequest (payload : List (Key × Json)) : Prop :=
  ∀ (lib : Bool) (daemon : Daemon), daemon.connects = true →
    (send lib daemon payload).map Prod.snd = some (request payload)

section Paths

variable (daemon : Daemon) (payload : List (Key × Json))

theorem Printable.lt {bs : List UInt8} (h : Printable bs) : ∀ b ∈ bs, b < 0x80 := by
  intro b hb
  have hrange := h b hb
  simp only [isPrintable, Bool.and_eq_true, decide_eq_true_eq, UInt8.le_iff_toNat_le] at hrange
  rw [UInt8.lt_iff_toNat_lt]
  exact Nat.lt_of_le_of_lt hrange.2 (by decide)

theorem Printable.nulFree {bs : List UInt8} (h : Printable bs) : ∀ b ∈ bs, (b != 0) = true := by
  intro b hb
  have hprintable := h b hb
  apply bne_iff_ne.mpr
  rintro rfl
  cases hprintable

theorem send_library :
    send true daemon payload = some (eviAzureSendJson daemon (dumps (.dict payload))) := by
  have hprintable := printable_dumps (.dict payload)
  have hwhole : (dumps (.dict payload)).takeWhile (· != 0) = dumps (.dict payload) :=
    List.takeWhile_eq_self_iff.mpr (Printable.nulFree hprintable)
  simp only [send, if_true, encode_ofAscii (Printable.lt hprintable), Option.map_some, hwhole]

theorem send_socket (connects : daemon.connects = true) :
    (send false daemon payload).map Prod.snd = some (request payload) := by
  have hline : Printable (ascii "SEND " ++ dumps (.dict payload)) :=
    (printable_of_all rfl).append (printable_dumps (.dict payload))
  have hbytes : ∀ b ∈ ascii "SEND " ++ dumps (.dict payload) ++ ascii "\n", b < 0x80 := by
    intro b hb
    rcases List.mem_append.mp hb with hb | hb
    · exact Printable.lt hline b hb
    · obtain rfl := List.mem_singleton.mp hb
      decide
  have hjoin : ofAscii (ascii "SEND ") ++ ofAscii (dumps (.dict payload)) ++ ofAscii (ascii "\n") =
      ofAscii (ascii "SEND " ++ dumps (.dict payload) ++ ascii "\n") := by
    simp [ofAscii]
  simp only [send, Bool.false_eq_true, if_false, sendSock, connects, if_true, Option.map_some,
    hjoin, encodeIgnore_ofAscii hbytes]
  rfl

theorem send_zero_iff :
    (send true daemon payload).map Prod.fst = some 0 ↔
      (send false daemon payload).map Prod.fst = some 0 := by
  have hok : ∀ n, 2 ≤ n → (ascii "OK" <+: daemon.answer.take n ↔ ascii "OK" <+: daemon.answer) := by
    intro n hn
    rw [List.prefix_take_iff]
    exact and_iff_left hn
  have hne : ∀ n, ascii "OK" <+: daemon.answer.take n → daemon.answer.take n ≠ [] := by
    intro n hprefix hnil
    rw [hnil, List.prefix_nil] at hprefix
    cases hprefix
  rw [send_library]
  by_cases connects : daemon.connects = true
  · have hlibrary : (eviAzureSendJson daemon (dumps (.dict payload))).1 = 0 ↔
        ascii "OK" <+: daemon.answer.take 127 := by
      simp only [eviAzureSendJson, sendCmd, connects, if_true]
      split_ifs with hnil hprefix
      · exact iff_of_false (by decide) fun hprefix => hne 127 hprefix hnil
      · exact iff_of_true rfl hprefix
      · exact iff_of_false (by decide) hprefix
    have hsocket : (send false daemon payload).map Prod.fst = some 0 ↔
        ascii "OK" <+: daemon.answer.take 128 := by
      simp only [send, Bool.false_eq_true, if_false, sendSock, connects, if_true, Option.map_some,
        Option.some.injEq]
      split_ifs with hanswer
      · exact iff_of_true rfl hanswer.2
      · exact iff_of_false (by decide) fun hprefix => hanswer ⟨hne 128 hprefix, hprefix⟩
    rw [Option.map_some, Option.some.injEq, hlibrary, hsocket, hok 127 (by decide),
      hok 128 (by decide)]
  · simp [eviAzureSendJson, sendCmd, send, sendSock, connects]

end Paths

theorem length_send : (ascii "SEND ").length = 5 := rfl

theorem length_le_of_writesRequest {payload : List (Key × Json)} (h : WritesRequest payload) :
    (dumps (.dict payload)).length ≤ 4090 := by
  have hlibrary := h true ⟨true, []⟩ rfl
  rw [send_library, Option.map_some, Option.some.injEq, eviAzureSendJson, sendCmd, if_pos rfl,
    request] at hlibrary
  have hwhole : snprintf 4096 (ascii "SEND " ++ dumps (.dict payload)) =
      ascii "SEND " ++ dumps (.dict payload) := List.append_cancel_right hlibrary
  have hlength := congrArg List.length hwhole
  rw [snprintf, List.length_take, List.length_append, length_send] at hlength
  omega

/-- Both ways write the whole request exactly if its text fits the buffer of the C library. -/
theorem writesRequest_iff (payload : List (Key × Json)) :
    WritesRequest payload ↔ (dumps (.dict payload)).length ≤ 4090 := by
  constructor
  · exact length_le_of_writesRequest
  · intro h lib daemon connects
    cases lib with
    | false => exact send_socket daemon payload connects
    | true =>
      have hfits : snprintf 4096 (ascii "SEND " ++ dumps (.dict payload)) =
          ascii "SEND " ++ dumps (.dict payload) := by
        apply Evi7688.Library.Bytes.snprintf_eq_self
        rw [List.length_append, length_send]
        omega
      rw [send_library, Option.map_some, eviAzureSendJson, hfits, sendCmd, if_pos connects, request]

def longPayload : List (Key × Json) := [(.str [], .str (List.replicate 5000 (.scalar 'x')))]

theorem le_length_dumps (n : Nat) :
    n ≤ (dumps (.dict [(.str [], .str (List.replicate n (.scalar 'x')))])).length := by
  have hone : (escapePoint (.scalar 'x')).length = 1 := rfl
  simp only [dumps, dumpsFields, quote, List.length_append, List.length_flatMap,
    List.map_replicate, List.sum_replicate_nat, hone]
  omega

/-- Of a text of 5000 characters the C library writes only the front. -/
theorem not_always_writesRequest : ¬ ∀ payload : List (Key × Json), WritesRequest payload := by
  intro h
  have hfits : (dumps (.dict longPayload)).length ≤ 4090 := length_le_of_writesRequest (h longPayload)
  have hlong : 5000 ≤ (dumps (.dict longPayload)).length := le_length_dumps 5000
  omega

end Evi7688.Python.SendJson
