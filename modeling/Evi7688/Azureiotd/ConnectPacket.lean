/- Evi7688/Azureiotd/ConnectPacket
   digest: Framing and contents of the CONNECT packet, judged by the MQTT grammar. -/

import Evi7688.Azureiotd.Conn

set_option autoImplicit false
set_option relaxedAutoImplicit false

namespace Evi7688.Azureiotd.ConnectPacket

open Evi7688.Library.Bytes (ascii snprintf snprintf_eq_self CArray)
open Evi7688.Library.Mqtt
open Conn

theorem mqttWriteStr_eq (s : List UInt8) :
    mqttWriteStr s =
      UInt8.ofNat (s.length / 256) :: UInt8.ofNat (s.length % 256) :: s := by
  have high : UInt8.ofNat ((s.length >>> 8) &&& 0xFF) = UInt8.ofNat (s.length / 256) := by
    rw [Nat.shiftRight_eq_div_pow, ← UInt8.toNat_inj]
    simp only [UInt8.toNat_ofNat', Nat.and_two_pow_sub_one_eq_mod _ 8]
    omega
  have low : UInt8.ofNat (s.length &&& 0xFF) = UInt8.ofNat (s.length % 256) :=
    congrArg UInt8.ofNat (Nat.and_two_pow_sub_one_eq_mod _ 8)
  rw [mqttWriteStr, high, low]

@[simp] theorem length_mqttWriteStr (s : List UInt8) :
    (mqttWriteStr s).length = s.length + 2 := rfl

theorem takeField_mqttWriteStr {s : List UInt8} (h : s.length < 65536) (rest : List UInt8) :
    takeField (mqttWriteStr s ++ rest) = some (s, rest) := by
  rw [mqttWriteStr_eq]
  exact takeField_append h rest

theorem length_connectUsername (cfg : EviAzureCfg) :
    (connectUsername cfg).length =
      cfg.host.bytes.length + cfg.deviceId.bytes.length + 25 := by
  simp only [connectUsername, List.length_append,
    show (ascii "/").length = 1 from rfl, show (ascii "/?api-version=2021-04-12").length = 24 from rfl]
  omega

theorem snprintf_connectUsername (cfg : EviAzureCfg) :
    snprintf 512 (connectUsername cfg) = connectUsername cfg := by
  have hhost := cfg.host.fits
  have hdevice := cfg.deviceId.fits
  apply snprintf_eq_self
  rw [length_connectUsername]
  omega

theorem length_connectBody (cfg : EviAzureCfg) :
    (connectBody cfg).length =
      cfg.host.bytes.length + 2 * cfg.deviceId.bytes.length + 39 := by
  simp only [connectBody, List.length_append, length_mqttWriteStr, List.length_cons,
    List.length_nil, snprintf_connectUsername, length_connectUsername,
    show (ascii "MQTT").length = 4 from rfl]
  omega

theorem mqttConnectX509_written (ssl : Tls) (cfg : EviAzureCfg)
    (sent : ssl.writeResults.headD .sent = .sent) :
    (mqttConnectX509 ssl cfg).2.written = ssl.written ++ [connectPacket cfg] := by
  have hlen : ¬ ((connectPacket cfg).length : Int) ≤ 0 := by
    simp [connectPacket]
    omega
  simp only [mqttConnectX509, sslWrite, sent, andThen_ok, if_neg hlen]
  generalize hout : { ssl.unsent with written := ssl.written ++ [connectPacket cfg] } = out
  rcases hread : mqttReadExact out 4 with ⟨r, ssl'⟩
  have hwritten : ssl'.written = ssl.written ++ [connectPacket cfg] := by
    rw [← congrArg (fun c => c.2.written) hread, ← hout]
    rfl
  match r with
  | .error stop => exact hwritten
  | .ok none => exact hwritten
  | .ok (some hdr) =>
    simp only [andThen_ok]
    split_ifs <;> exact hwritten

/-- The one-byte remaining length is right exactly while the body stays under 128 bytes. -/
theorem connectPacket_framed_iff (cfg : EviAzureCfg) :
    Framed 0x10 (connectPacket cfg) ↔
      cfg.host.bytes.length + 2 * cfg.deviceId.bytes.length ≤ 88 := by
  have hlen := length_connectBody cfg
  have hbyte : (UInt8.ofNat (connectBody cfg).length).toNat = (connectBody cfg).length % 256 :=
    UInt8.toNat_ofNat'
  obtain ⟨rest, hrest⟩ : ∃ rest, connectBody cfg = 0x00 :: rest := ⟨_, rfl⟩
  have hrestlen : (connectBody cfg).length = rest.length + 1 := congrArg List.length hrest
  constructor
  · rintro ⟨field, body, hpacket, hdecode⟩
    obtain rfl : UInt8.ofNat (connectBody cfg).length :: connectBody cfg = field :=
      (List.cons.inj hpacket).2
    by_cases hshort : (UInt8.ofNat (connectBody cfg).length).toNat < 128
    · rw [decodeRemainingLength_short hshort, Option.some.injEq, Prod.mk.injEq] at hdecode
      obtain ⟨hvalue, rfl⟩ := hdecode
      omega
    · -- The first byte of the body is read as a second length byte.
      rw [hrest] at hdecode
      rw [hrest] at hshort
      rw [decodeRemainingLength_zero_next (by omega), Option.some.injEq, Prod.mk.injEq] at hdecode
      obtain ⟨hvalue, rfl⟩ := hdecode
      rw [hrest] at hbyte
      simp only [List.length_cons] at hbyte hvalue hrestlen hlen
      omega
  · intro hbound
    refine ⟨_, connectBody cfg, rfl, ?_⟩
    rw [decodeRemainingLength_short (by omega)]
    rw [hbyte, Nat.mod_eq_of_lt (by omega)]

def longDeviceCfg : EviAzureCfg :=
  { templateCfg with deviceId := ⟨⟨ascii "charger-0123456789abcdef01234567", by decide⟩, by decide⟩ }

theorem longDevice_not_framed : ¬ Framed 0x10 (connectPacket longDeviceCfg) := by
  rintro ⟨field, body, hpacket, hdecode⟩
  obtain rfl := (List.cons.inj hpacket).2
  have hread : decodeRemainingLength (UInt8.ofNat (connectBody longDeviceCfg).length ::
      connectBody longDeviceCfg) = some (1, (connectBody longDeviceCfg).tail) := by
    decide +kernel
  rw [hread, Option.some.injEq, Prod.mk.injEq] at hdecode
  obtain ⟨hvalue, rfl⟩ := hdecode
  revert hvalue
  decide +kernel

/-- What a broker must be able to read out of the bytes after the fixed header. -/
def CompleteConnect (cfg : EviAzureCfg) (body : List UInt8) : Prop :=
  ∃ c, parseConnect body = some (c, []) ∧ c.protocol = ascii "MQTT" ∧ c.level = 4 ∧
    c.clientId = cfg.deviceId.bytes ∧ c.username = some (connectUsername cfg) ∧
    (c.keepAlive : Int) = cfg.keepalive.toInt

theorem parseConnect_connectBody (cfg : EviAzureCfg) : parseConnect (connectBody cfg) = none := by
  have hdevice := cfg.deviceId.fits
  have hhost := cfg.host.fits
  have huser : (connectUsername cfg).length < 65536 := by
    rw [length_connectUsername]
    omega
  have hname : takeField (connectBody cfg) = some (ascii "MQTT", [4, 0xC2] ++
      [byteOfInt cfg.keepalive 8, byteOfInt cfg.keepalive 0] ++
      mqttWriteStr cfg.deviceId.bytes ++ mqttWriteStr (connectUsername cfg)) := by
    rw [connectBody, snprintf_connectUsername]
    simp only [List.append_assoc]
    exact takeField_mqttWriteStr (by decide) _
  have hclient : takeField (mqttWriteStr cfg.deviceId.bytes ++ mqttWriteStr (connectUsername cfg)) =
      some (cfg.deviceId.bytes, mqttWriteStr (connectUsername cfg)) :=
    takeField_mqttWriteStr (by omega) _
  have husername : takeField (mqttWriteStr (connectUsername cfg)) =
      some (connectUsername cfg, []) := by
    simpa using takeField_mqttWriteStr huser []
  have hwill : (0xC2 : UInt8) &&& 0x04 = 0 := by decide
  have hannounced : (0xC2 : UInt8) &&& 0x80 ≠ 0 := by decide
  have hpassword : (0xC2 : UInt8) &&& 0x40 ≠ 0 := by decide
  simp [parseConnect, hname, hclient, takeOptional, hwill, hannounced, hpassword, husername]

theorem connectPacket_never_complete (cfg : EviAzureCfg) :
    ¬ CompleteConnect cfg ((connectPacket cfg).drop 2) := by
  rintro ⟨c, hparse, -⟩
  rw [show (connectPacket cfg).drop 2 = connectBody cfg from rfl,
    parseConnect_connectBody] at hparse
  simp at hparse

theorem template_not_complete :
    ¬ CompleteConnect templateCfg ((connectPacket templateCfg).drop 2) := by
  have hnone : parseConnect ((connectPacket templateCfg).drop 2) = none := by decide +kernel
  rintro ⟨c, hparse, -⟩
  rw [hnone] at hparse
  simp at hparse

end Evi7688.Azureiotd.ConnectPacket
