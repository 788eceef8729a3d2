/- Evi7688/Azureiotd/WireOrder
   digest: What azure_conn_run has written at its end, whichever write fails and whatever the broker sends. -/

import Evi7688.Azureiotd.Session

set_option autoImplicit false
set_option relaxedAutoImplicit false

namespace Evi7688.Azureiotd.WireOrder

open Evi7688.Library.Pieces (readExact readExact_some)
open Conn Session

/-- The three writes of a publication. -/
def publishWrites (topic payload : List UInt8) (packetId : UInt16) : List (List UInt8) :=
  let body := publishBody topic payload packetId
  [[0x32], remainingLoop (body.length + 1) body.length, body]

/-- The writes of an exchange that nothing disturbs: CONNECT, the publication, DISCONNECT. -/
def script (now : Int) (cfg : EviAzureCfg) : List (List UInt8) :=
  [connectPacket cfg] ++ (publishWrites (publishTopic cfg) (publishJson now) 1 ++ [[0xE0, 0x00]])

/-- So many of the writes went out between two states of a session. -/
def Sent (before : Tls) (writes : List (List UInt8)) (after : Tls) (sent : Nat) : Prop :=
  after.written = before.written ++ writes.take sent ∧ sent ≤ writes.length

section Sent

variable {before between after : Tls} {writes more : List (List UInt8)} {sent : Nat}

theorem Sent.weaken (h : Sent before writes after sent) :
    Sent before (writes ++ more) after sent := by
  obtain ⟨hwritten, hlen⟩ := h
  refine ⟨?_, by rw [List.length_append]; omega⟩
  rw [hwritten, List.take_append_of_le_length hlen]

/-- What is sent once all of the writes before are out is sent behind them. -/
theorem Sent.append (h : Sent before writes between writes.length)
    (next : Sent between more after sent) :
    Sent before (writes ++ more) after (writes.length + sent) := by
  obtain ⟨hbetween, -⟩ := h
  obtain ⟨hafter, hlen⟩ := next
  refine ⟨?_, by rw [List.length_append]; omega⟩
  rw [hafter, hbetween, List.take_length, List.take_length_add_append, List.append_assoc]

theorem sent_wrote (ssl : Tls) (data : List UInt8) : Sent ssl [data] (wrote ssl data) 1 :=
  ⟨rfl, Nat.le_refl 1⟩

theorem sent_none (ssl : Tls) (writes : List (List UInt8)) : Sent ssl writes ssl.unsent 0 := by
  simp [Sent, Tls.unsent]

end Sent

section Read

theorem masked_of_connackResult (ssl : Tls)
    (h : ((mqttReadExact ssl 4).andThen connackResult).1 = .ok 0) :
    MaskedConnack ssl.incoming.flatten ∧
      (mqttReadExact ssl 4).2.incoming.flatten = ssl.incoming.flatten.drop 4 := by
  unfold mqttReadExact at h ⊢
  rcases hread : readExact 4 ssl.incoming with ⟨_ | hdr, rest⟩
  · simp only [hread, true_and] at h
    split_ifs at h
    · simp at h
    · simp [connackResult] at h
  · obtain ⟨hflat, hlen⟩ := readExact_some hread
    obtain ⟨a, b, flags, c, tail, rfl⟩ := exists_four_of_length (Nat.le_of_eq hlen.symm)
    obtain rfl := List.length_eq_zero_iff.mp (show tail.length = 0 by simpa using hlen)
    rw [hflat]
    simp only [hread, reduceCtorEq, false_and, if_false, andThen_ok, connackResult,
      List.getD_cons_zero, List.getD_cons_succ] at h
    split_ifs at h with ha hb hc
    · simp at h
    · simp at h
    · simp at h
    · obtain rfl := not_not.mp hb
      obtain rfl := not_not.mp hc
      exact ⟨⟨a, flags, rest.flatten, rfl, not_not.mp ha⟩, rfl⟩

theorem masked_of_pubackResult (ssl : Tls)
    (h : ((mqttReadExact ssl 2).andThen pubackResult).1 = .ok 0) :
    MaskedPuback ssl.incoming.flatten := by
  unfold mqttReadExact at h
  rcases hread : readExact 2 ssl.incoming with ⟨_ | a, rest⟩
  · simp only [hread, true_and] at h
    split_ifs at h
    · simp at h
    · simp [pubackResult] at h
  · obtain ⟨hflat, hlen⟩ := readExact_some hread
    obtain ⟨a, b, tail, rfl⟩ := exists_two_of_length (Nat.le_of_eq hlen.symm)
    rw [hflat]
    simp only [hread, reduceCtorEq, false_and, if_false, andThen_ok, pubackResult,
      List.getD_cons_zero] at h
    split_ifs at h with ha
    · simp at h
    · exact ⟨a, b, tail ++ rest.flatten, rfl, not_not.mp ha⟩

end Read

section Exchange

variable {ssl : Tls}

theorem writeThen_sent {ssl : Tls} {data : List UInt8} {failed : Int} {next : Tls → Call Int}
    {writes : List (List UInt8)} (nonempty : data ≠ []) (nonzero : failed ≠ 0) {P : Nat → Prop}
    (follows : ∃ sent, Sent (wrote ssl data) writes (next (wrote ssl data)).2 sent ∧
      ((next (wrote ssl data)).1 = .ok 0 → P (1 + sent))) :
    ∃ sent, Sent ssl ([data] ++ writes) (writeThen ssl data failed next).2 sent ∧
      ((writeThen ssl data failed next).1 = .ok 0 → P sent) := by
  by_cases hsent : ssl.writeResults.headD .sent = .sent
  · obtain ⟨sent, hnext, hzero⟩ := follows
    rw [writeThen_of_sent hsent nonempty]
    exact ⟨1 + sent, (sent_wrote ssl data).append hnext, hzero⟩
  · obtain ⟨r, hr, hrun⟩ := writeThen_of_unsent hsent data nonzero next
    rw [hrun]
    exact ⟨0, sent_none ssl _, fun hzero => absurd hzero hr⟩

theorem mqttConnectX509_sent (ssl : Tls) (cfg : EviAzureCfg) :
    ∃ sent, Sent ssl [connectPacket cfg] (mqttConnectX509 ssl cfg).2 sent ∧
      ((mqttConnectX509 ssl cfg).1 = .ok 0 → sent = 1 ∧ MaskedConnack ssl.incoming.flatten ∧
        (mqttConnectX509 ssl cfg).2.incoming.flatten = ssl.incoming.flatten.drop 4) := by
  by_cases hsent : ssl.writeResults.headD .sent = .sent
  · have hne : connectPacket cfg ≠ [] := List.cons_ne_nil _ _
    rw [mqttConnectX509_eq, writeThen_of_sent hsent hne, andThen_session connackResult_session]
    exact ⟨1, sent_wrote ssl (connectPacket cfg), fun hzero =>
      ⟨rfl, masked_of_connackResult (wrote ssl (connectPacket cfg)) hzero⟩⟩
  · obtain ⟨r, hr, hrun⟩ := writeThen_of_unsent hsent (connectPacket cfg)
      (show (-1 : Int) ≠ 0 by decide) fun ssl => (mqttReadExact ssl 4).andThen connackResult
    rw [mqttConnectX509_eq, hrun]
    exact ⟨0, sent_none ssl _, fun hzero => absurd hzero hr⟩

theorem mqttPublishQos1_sent (ssl : Tls) (topic payload : List UInt8) (id : UInt16) :
    ∃ sent,
      Sent ssl (publishWrites topic payload id) (mqttPublishQos1 ssl topic payload id).2 sent ∧
      ((mqttPublishQos1 ssl topic payload id).1 = .ok 0 →
        sent = 3 ∧ MaskedPuback ssl.incoming.flatten) := by
  have hbody : publishBody topic payload id ≠ [] := List.cons_ne_nil _ _
  rw [mqttPublishQos1_eq, publishWrites]
  generalize publishBody topic payload id = body at hbody
  have hrem := remainingLoop_ne_nil body.length body.length
  generalize remainingLoop (body.length + 1) body.length = rem at hrem
  apply writeThen_sent (List.cons_ne_nil _ _) (by decide)
  apply writeThen_sent (P := fun sent => 1 + sent = 3 ∧ MaskedPuback ssl.incoming.flatten) hrem
    (by decide)
  apply writeThen_sent
    (P := fun sent => 1 + (1 + sent) = 3 ∧ MaskedPuback ssl.incoming.flatten) hbody (by decide)
  rw [andThen_session pubackResult_session]
  refine ⟨0, ⟨by simp [mqttReadExact], Nat.le_refl 0⟩, fun hzero => ⟨rfl, ?_⟩⟩
  exact masked_of_pubackResult (wrote (wrote (wrote ssl [0x32]) rem) body) hzero

theorem mqttDisconnect_sent (ssl : Tls) :
    ∃ sent, Sent ssl [[0xE0, 0x00]] (mqttDisconnect ssl).2 sent := by
  unfold mqttDisconnect sslWrite
  cases ssl.writeResults.headD .sent with
  | sent => exact ⟨1, sent_wrote ssl [0xE0, 0x00]⟩
  | failed => exact ⟨0, sent_none ssl _⟩
  | sigpipe => exact ⟨0, sent_none ssl _⟩

/-- Whichever write fails or kills the process and whatever the broker sends, in any pieces: what
goes out is the front of the script, a publication only behind a CONNACK that passes, DISCONNECT
only behind a PUBACK, and the exchange succeeds only with the whole publication out and both answers
there. -/
theorem x509Exchange_sent (ssl : Tls) (now : Int) (cfg : EviAzureCfg) :
    ∃ sent, Sent ssl (script now cfg) (x509Exchange ssl now cfg).2 sent ∧
      (1 < sent → MaskedConnack ssl.incoming.flatten) ∧
      (4 < sent → MaskedPuback (ssl.incoming.flatten.drop 4)) ∧
      ((x509Exchange ssl now cfg).1 = .ok 0 → 4 ≤ sent ∧ MaskedAccept ssl.incoming.flatten) := by
  obtain ⟨sentConnect, hconnect, haccepted⟩ := mqttConnectX509_sent ssl cfg
  have hfirst : sentConnect ≤ 1 := hconnect.2
  unfold x509Exchange script
  generalize mqttConnectX509 ssl cfg = connect at hconnect haccepted ⊢
  rcases connect with ⟨stop | rc, ssl₁⟩
  · rw [andThen_error]
    exact ⟨sentConnect, hconnect.weaken, by omega, by omega, fun hzero => by simp at hzero⟩
  · rw [andThen_ok]
    split_ifs with hrc
    · exact ⟨sentConnect, hconnect.weaken, by omega, by omega, fun hzero => by simp at hzero⟩
    · obtain rfl := not_not.mp hrc
      obtain ⟨rfl, hconnack, hleft⟩ := haccepted rfl
      obtain ⟨sentPublish, hpublish, hacked⟩ := mqttPublishQos1_sent ssl₁
        (publishTopic cfg) (publishJson now) 1
      have hthree : sentPublish ≤ 3 := hpublish.2
      generalize mqttPublishQos1 ssl₁ (publishTopic cfg) (publishJson now) 1 = publish
        at hpublish hacked ⊢
      rcases publish with ⟨stop | rc, ssl₂⟩
      · rw [andThen_error]
        exact ⟨1 + sentPublish, hconnect.append hpublish.weaken, fun _ => hconnack, by omega,
          fun hzero => by simp at hzero⟩
      · rw [andThen_ok]
        split_ifs with hpc
        · exact ⟨1 + sentPublish, hconnect.append hpublish.weaken, fun _ => hconnack, by omega,
            fun hzero => by simp at hzero⟩
        · obtain rfl := not_not.mp hpc
          obtain ⟨rfl, hpuback⟩ := hacked rfl
          rw [hleft] at hpuback
          obtain ⟨sentDisconnect, hdisconnect⟩ := mqttDisconnect_sent ssl₂
          have hsession : ((mqttDisconnect ssl₂).andThen fun _ ssl => ((.ok 0, ssl) : Call Int)).2 =
              (mqttDisconnect ssl₂).2 := andThen_session fun _ _ => rfl
          rw [hsession]
          exact ⟨1 + (3 + sentDisconnect), hconnect.append (hpublish.append hdisconnect),
            fun _ => hconnack, fun _ => hpuback, fun _ => ⟨by omega, hconnack, hpuback⟩⟩

end Exchange

end Evi7688.Azureiotd.WireOrder
