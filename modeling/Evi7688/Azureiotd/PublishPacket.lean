/- Evi7688/Azureiotd/PublishPacket
   digest: What a broker reads out of the three writes of a publication. -/

import Evi7688.Azureiotd.ConnectPacket
import Evi7688.Azureiotd.Session

set_option autoImplicit false
set_option relaxedAutoImplicit false

namespace Evi7688.Azureiotd.PublishPacket

open Evi7688.Library.Bytes (ascii)
open Evi7688.Library.Mqtt
open Conn
open ConnectPacket (takeField_mqttWriteStr length_mqttWriteStr)
open Session (wrote andThen_session pubackResult_session mqttPublishQos1_of_writes)

section RemainingLength

theorem toNat_or_continuation {n : Nat} (h : n < 128) :
    (UInt8.ofNat n ||| 0x80).toNat = n + 128 := by
  have hbits : n ||| 128 = n + 128 := by
    have hadd := Nat.two_pow_add_eq_or_of_lt (i := 7) (b := n) (by omega) 1
    rw [Nat.mul_one] at hadd
    rw [Nat.or_comm, ← hadd, Nat.add_comm]
  rw [UInt8.toNat_or, UInt8.toNat_ofNat', Nat.mod_eq_of_lt (by omega)]
  exact hbits

theorem decodeGroups_remainingLoop (budget : Nat) {val fuel : Nat}
    (enough : val < 128 ^ (budget + 1)) (rounds : val < fuel) (rest : List UInt8) :
    decodeGroups (budget + 1) (remainingLoop fuel val ++ rest) = some (val, rest) := by
  induction budget generalizing val fuel with
  | zero =>
    obtain ⟨fuel, rfl⟩ := Nat.exists_eq_add_one.mpr (Nat.zero_lt_of_lt rounds)
    have hlast : ¬ 0 < val / 128 := by omega
    have hbyte : (UInt8.ofNat (val % 128)).toNat = val := by
      rw [UInt8.toNat_ofNat']
      omega
    simp only [remainingLoop, if_neg hlast, List.cons_append, List.nil_append, decodeGroups, hbyte,
      if_pos (show val < 128 by omega)]
  | succ budget ih =>
    obtain ⟨fuel, rfl⟩ := Nat.exists_eq_add_one.mpr (Nat.zero_lt_of_lt rounds)
    rw [remainingLoop]
    by_cases hmore : 0 < val / 128
    · have hbyte := toNat_or_continuation (Nat.mod_lt val (show 0 < 128 by omega))
      have htail : val / 128 < 128 ^ (budget + 1) := by
        rw [Nat.pow_succ] at enough
        exact Nat.div_lt_of_lt_mul (by omega)
      have hrest := ih htail (show val / 128 < fuel by omega)
      simp only [if_pos hmore, List.cons_append]
      rw [decodeGroups, hbyte, if_neg (by omega), hrest, Option.map_some, Option.some.injEq,
        Prod.mk.injEq]
      exact ⟨by omega, rfl⟩
    · have hbyte : (UInt8.ofNat (val % 128)).toNat = val := by
        rw [UInt8.toNat_ofNat']
        omega
      simp only [if_neg hmore, List.cons_append, List.nil_append, decodeGroups, hbyte,
        if_pos (show val < 128 by omega)]

theorem decodeRemainingLength_remainingLoop {n : Nat} (h : n < 128 ^ 4) (rest : List UInt8) :
    decodeRemainingLength (remainingLoop (n + 1) n ++ rest) = some (n, rest) :=
  decodeGroups_remainingLoop 3 h (Nat.lt_succ_self n) rest

end RemainingLength

section Packet

theorem packetId_bytes (id : UInt16) :
    256 * ((id >>> 8) &&& 0xFF).toUInt8.toNat + (id &&& 0xFF).toUInt8.toNat = id.toNat := by
  have hid := id.toNat_lt
  have hhigh : ((id >>> 8) &&& 0xFF).toUInt8.toNat = id.toNat / 256 := by
    have hmask := Nat.and_two_pow_sub_one_eq_mod (id.toNat >>> 8) 8
    rw [UInt16.toNat_toUInt8, UInt16.toNat_and, UInt16.toNat_shiftRight]
    simp only [UInt16.reduceToNat, Nat.reduceMod]
    rw [hmask, Nat.shiftRight_eq_div_pow]
    omega
  have hlow : (id &&& 0xFF).toUInt8.toNat = id.toNat % 256 := by
    have hmask := Nat.and_two_pow_sub_one_eq_mod id.toNat 8
    rw [UInt16.toNat_toUInt8, UInt16.toNat_and]
    simp only [UInt16.reduceToNat]
    rw [hmask]
    omega
  rw [hhigh, hlow]
  omega

theorem length_publishBody (topic payload : List UInt8) (id : UInt16) :
    (publishBody topic payload id).length = 2 + topic.length + 2 + payload.length := by
  simp only [publishBody, List.length_append, length_mqttWriteStr, List.length_cons,
    List.length_nil]
  omega

theorem parsePublish_publishBody {topic : List UInt8} (h : topic.length < 65536)
    (payload : List UInt8) (id : UInt16) :
    parsePublish 0x02 (publishBody topic payload id) =
      some ⟨false, 1, false, topic, some id.toNat, payload⟩ := by
  have htopic := takeField_mqttWriteStr h
    ([((id >>> 8) &&& 0xFF).toUInt8, (id &&& 0xFF).toUInt8] ++ payload)
  have hqos : ((0x02 : UInt8) >>> 1) &&& 0x03 = 1 := rfl
  rw [publishBody, List.append_assoc, parsePublish, htopic]
  simp only [List.cons_append, List.nil_append, hqos, packetId_bytes]
  rfl

end Packet

/-- The three writes together are one PUBLISH packet with everything it was given. -/
theorem publication_decodes {ssl : Tls} {topic payload : List UInt8} (id : UInt16)
    (fits : 2 + topic.length + 2 + payload.length ≤ 1024)
    (writes : ∀ r ∈ ssl.writeResults.take 3, r = .sent) :
    ∃ hdr rem body, (mqttPublishQos1 ssl topic payload id).2.written =
        ssl.written ++ [hdr, rem, body] ∧
      takePublish (hdr ++ rem ++ body) =
        some (⟨false, 1, false, topic, some id.toNat, payload⟩, []) ∧
      decodeRemainingLength rem = some (body.length, []) := by
  have hlength := length_publishBody topic payload id
  have hparse := parsePublish_publishBody (show topic.length < 65536 by omega) payload id
  have hrun := mqttPublishQos1_of_writes topic payload id writes
  generalize hdata : publishBody topic payload id = body at hlength hparse hrun
  have hcounted := decodeRemainingLength_remainingLoop (show body.length < 128 ^ 4 by omega)
  refine ⟨[0x32], remainingLoop (body.length + 1) body.length, body, ?_, ?_, ?_⟩
  · rw [hrun, andThen_session pubackResult_session]
    simp only [mqttReadExact, wrote, List.append_assoc, List.cons_append, List.nil_append]
  · have hfield := hcounted (body ++ [])
    have hframed := takePublish_framed (show (0x32 : UInt8) &&& 0xF0 = 0x30 from rfl) hfield
    rw [List.append_nil] at hframed
    rw [List.append_assoc, List.singleton_append, hframed]
    exact congrArg (Option.map fun p => (p, [])) hparse
  · have hfield := hcounted []
    rwa [List.append_nil] at hfield

/-- A payload of 200 bytes, whose size takes two groups. -/
theorem publication_decodes_long :
    ∃ hdr rem body, (mqttPublishQos1 ⟨[], true, [], []⟩ (ascii "devices/a") (.replicate 200 0x61)
        7).2.written = [] ++ [hdr, rem, body] ∧
      takePublish (hdr ++ rem ++ body) =
        some (⟨false, 1, false, ascii "devices/a", some 7, .replicate 200 0x61⟩, []) ∧
      decodeRemainingLength rem = some (body.length, []) := by
  apply publication_decodes 7
  · rw [List.length_replicate]
    exact show 2 + 9 + 2 + 200 ≤ 1024 by omega
  · intro r hr
    exact absurd hr List.not_mem_nil

end Evi7688.Azureiotd.PublishPacket
