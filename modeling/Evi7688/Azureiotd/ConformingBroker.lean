/- Evi7688/Azureiotd/ConformingBroker
   digest: What a broker that keeps to the MQTT grammar makes of the CONNECT packet, and of the run. -/

import Evi7688.Azureiotd.ConnectPacket
import Evi7688.Azureiotd.WireOrder

set_option autoImplicit false
set_option relaxedAutoImplicit false

namespace Evi7688.Azureiotd.ConformingBroker

open Evi7688.Library.Bytes (ascii)
open Evi7688.Library.Mqtt
open Conn ConnectPacket Session
open WireOrder (Sent mqttConnectX509_sent)

/-- A broker: what it sends, by what it has received. -/
abbrev Broker := List UInt8 → List UInt8

/-- It sends nothing to who has not opened with a CONNECT. -/
def Broker.Conforming (broker : Broker) : Prop :=
  ∀ received, takeConnect received = none → broker received = []

section Packet

variable (cfg : EviAzureCfg)

theorem parseConnect_take (n : Nat) : parseConnect ((connectBody cfg).take n) = none := by
  rcases hparse : parseConnect ((connectBody cfg).take n) with _ | ⟨c, rest⟩
  · rfl
  · have hwhole := parseConnect_append_of_some hparse ((connectBody cfg).drop n)
    rw [List.take_append_drop, parseConnect_connectBody] at hwhole
    cases hwhole

theorem parseConnect_tail_take {n : Nat} (short : n < 128) :
    parseConnect ((connectBody cfg).tail.take n) = none := by
  obtain ⟨rest, hrest⟩ : ∃ rest, (connectBody cfg).tail = 0x04 :: 0x4D :: rest := ⟨_, rfl⟩
  have hfield : takeField ((0x04 :: 0x4D :: rest).take n) = none := by
    match n, short with
    | 0, _ => rfl
    | 1, _ => rfl
    | n + 2, short =>
      have hlength : (rest.take n).length < 256 * (0x04 : UInt8).toNat + (0x4D : UInt8).toNat := by
        rw [List.length_take]
        have hfour : (0x04 : UInt8).toNat = 4 := rfl
        omega
      rw [List.take_succ_cons, List.take_succ_cons, takeField, if_pos hlength]
  rw [hrest, parseConnect, hfield]
  rfl

/-- Whatever the length byte says of the body, no CONNECT is read out of the packet. -/
theorem takeConnect_connectPacket : takeConnect (connectPacket cfg) = none := by
  have hpacket : connectPacket cfg =
      0x10 :: UInt8.ofNat (connectBody cfg).length :: connectBody cfg := rfl
  rw [hpacket]
  by_cases hshort : (UInt8.ofNat (connectBody cfg).length).toNat < 128
  · simp only [takeConnect, ne_eq, not_true, if_false, decodeRemainingLength_short hshort,
      parseConnect_take]
    split_ifs <;> rfl
  · -- the first byte of the body is taken for a second byte of the length
    obtain ⟨rest, hbody⟩ : ∃ rest, connectBody cfg = 0x00 :: rest := ⟨_, rfl⟩
    have htail : (connectBody cfg).tail = rest := by rw [hbody]; rfl
    have hlength : (UInt8.ofNat (connectBody cfg).length).toNat - 128 < 128 := by
      have hbyte := (UInt8.ofNat (connectBody cfg).length).toNat_lt
      omega
    have hparse := parseConnect_tail_take cfg hlength
    rw [htail] at hparse
    have hdecode := decodeRemainingLength_zero_next (Nat.le_of_not_lt hshort) rest
    generalize UInt8.ofNat (connectBody cfg).length = b at hdecode hparse
    rw [hbody]
    simp only [takeConnect, ne_eq, not_true, if_false, hdecode, hparse]
    split_ifs <;> rfl

end Packet

section Run

theorem x509Exchange_of_silent {ssl : Tls} (silent : ssl.incoming.flatten = []) (now : Int)
    (cfg : EviAzureCfg) :
    (∀ rc, (x509Exchange ssl now cfg).1 = .ok rc → rc = -1) ∧
      ((x509Exchange ssl now cfg).2.written = ssl.written ∨
        (x509Exchange ssl now cfg).2.written = ssl.written ++ [connectPacket cfg]) := by
  obtain ⟨sent, ⟨hwritten, hone⟩, haccepted⟩ := mqttConnectX509_sent ssl cfg
  have hrefused : (mqttConnectX509 ssl cfg).1 ≠ .ok 0 := by
    intro hzero
    obtain ⟨-, ⟨a, flags, rest, hstream, -⟩, -⟩ := haccepted hzero
    rw [silent] at hstream
    cases hstream
  have hsent : (mqttConnectX509 ssl cfg).2.written = ssl.written ∨
      (mqttConnectX509 ssl cfg).2.written = ssl.written ++ [connectPacket cfg] := by
    match sent, hone with
    | 0, _ =>
      rw [List.take_zero, List.append_nil] at hwritten
      exact Or.inl hwritten
    | 1, _ => exact Or.inr hwritten
  unfold x509Exchange
  generalize mqttConnectX509 ssl cfg = connect at hrefused hsent ⊢
  rcases connect with ⟨stop | rc, ssl'⟩
  · exact ⟨fun rc hreturned => by simp at hreturned, hsent⟩
  · have hrc : rc ≠ 0 := fun hzero => hrefused (hzero ▸ rfl)
    rw [andThen_ok, if_pos hrc]
    exact ⟨fun rc hreturned => (Except.ok.inj hreturned).symm, hsent⟩

theorem x509Session_eq (ssl : Tls) (now : Int) (cfg : EviAzureCfg) :
    (∀ rc, (x509Session ssl now cfg).1 = .ok rc → (x509Exchange ssl now cfg).1 = .ok rc) ∧
      (x509Session ssl now cfg).2.written = (x509Exchange ssl now cfg).2.written := by
  unfold x509Session sslShutdown
  rcases x509Exchange ssl now cfg with ⟨stop | rc, ssl'⟩
  · exact ⟨fun _ hreturned => hreturned, rfl⟩
  · rw [andThen_ok]
    split_ifs
    · exact ⟨fun rc hreturned => by simp at hreturned, rfl⟩
    · exact ⟨fun _ hreturned => hreturned, rfl⟩

/-- With a broker that keeps to the grammar `azure_conn_run` never succeeds over X.509, whether it
returns or not, and no byte of a publication goes out. -/
theorem refused_by_conforming {broker : Broker} (conforming : broker.Conforming) {net : Network}
    {cfg : EviAzureCfg} (x509 : cfg.auth = .x509)
    (answers : ∀ ssl, net.tlsWrap = .ok (some ssl) →
      ssl.incoming.flatten = broker (connectPacket cfg) ∧ ssl.written = []) :
    (∀ rc, (azureConnRun net cfg).1 = .ok rc → rc = -1) ∧
      ∀ ssl, (azureConnRun net cfg).2 = some ssl →
        ssl.written = [] ∨ ssl.written = [connectPacket cfg] := by
  unfold azureConnRun
  simp only [x509]
  cases net.tcpConnect with
  | false =>
    exact ⟨fun rc hreturned => (Except.ok.inj hreturned).symm, fun ssl hssl => by cases hssl⟩
  | true =>
    rw [if_pos rfl]
    match htls : net.tlsWrap with
    | .error stop => exact ⟨fun rc hreturned => by simp at hreturned, fun ssl hssl => by cases hssl⟩
    | .ok none =>
      exact ⟨fun rc hreturned => (Except.ok.inj hreturned).symm, fun ssl hssl => by cases hssl⟩
    | .ok (some ssl) =>
      obtain ⟨hanswers, hfresh⟩ := answers ssl htls
      have hsilent : ssl.incoming.flatten = [] :=
        hanswers.trans (conforming _ (takeConnect_connectPacket cfg))
      obtain ⟨hreturns, hsent⟩ := x509Exchange_of_silent hsilent net.now cfg
      obtain ⟨hsame, hwritten⟩ := x509Session_eq ssl net.now cfg
      refine ⟨fun rc hreturned => hreturns rc (hsame rc hreturned), ?_⟩
      rintro ssl' ⟨rfl⟩
      rw [hwritten]
      rwa [hfresh, List.nil_append] at hsent

end Run

/-- A broker that accepts every CONNECT and acknowledges what follows. -/
def accepting : Broker := fun received =>
  if (takeConnect received).isSome then goodReplies else []

theorem conforming_accepting : accepting.Conforming := by
  intro received hnone
  rw [accepting, hnone]
  rfl

/-- The connection to such a broker, which closes it when it has nothing to say. -/
def acceptingNet : Network where
  now := 0
  tcpConnect := true
  tlsWrap := .ok (some ⟨[accepting (connectPacket templateCfg)], false, [], []⟩)
  crypto := ⟨fun _ => none, fun _ _ => [], fun _ => none⟩

theorem refused_by_conforming_template :
    (azureConnRun acceptingNet templateCfg).1 = .ok (-1) ∧
      (∀ rc, (azureConnRun acceptingNet templateCfg).1 = .ok rc → rc = -1) ∧
      ∀ ssl, (azureConnRun acceptingNet templateCfg).2 = some ssl →
        ssl.written = [] ∨ ssl.written = [connectPacket templateCfg] := by
  refine ⟨by decide +kernel, refused_by_conforming conforming_accepting rfl ?_⟩
  intro ssl hssl
  obtain rfl : _ = ssl := Option.some.inj (Except.ok.inj hssl)
  exact ⟨List.flatten_singleton .., rfl⟩

/-- The same packet without the announcement of a password is a CONNECT to it. -/
example : (accepting (0x10 :: UInt8.ofNat (connectBody templateCfg).length ::
    (connectBody templateCfg).set 7 0x82)) = goodReplies := by decide +kernel

end Evi7688.Azureiotd.ConformingBroker
