/- Evi7688/Azureiotd/Session
   digest: Which broker streams azure_conn_run takes for an accepted and acknowledged publication. -/

import Evi7688.Azureiotd.Conn

set_option autoImplicit false
set_option relaxedAutoImplicit false

namespace Evi7688.Azureiotd.Session

open Evi7688.Library.Bytes (ascii)
open Evi7688.Library.Pieces (Delivers readExact_eq readExact_eq_none)
open Evi7688.Library.Mqtt (AcceptsAndAcks)
open Conn

def MaskedConnack (stream : List UInt8) : Prop :=
  ∃ a flags rest, stream = a :: 0x02 :: flags :: 0x00 :: rest ∧ a &&& 0xF0 = 0x20

def MaskedPuback (stream : List UInt8) : Prop :=
  ∃ a b rest, stream = a :: b :: rest ∧ a &&& 0xF0 = 0x40

/-- All the code looks at: two type nibbles, the length and the return code of the first packet,
and that a sixth byte is there. -/
def MaskedAccept (stream : List UInt8) : Prop :=
  MaskedConnack stream ∧ MaskedPuback (stream.drop 4)

/-- CONNECT and the three parts of the publication go out, and neither of the two writes behind
them, whose results are dropped, kills the process. -/
def WritesSucceed (results : List WriteResult) : Prop :=
  (∀ r ∈ results.take 4, r = .sent) ∧ ∀ r ∈ (results.drop 4).take 2, r ≠ .sigpipe

def testPacketId : UInt16 := 1

section Write

variable {ssl : Tls}

def wrote (ssl : Tls) (data : List UInt8) : Tls :=
  ⟨ssl.incoming, ssl.keptOpen, ssl.writeResults.tail, ssl.written ++ [data]⟩

/-- One write of an exchange: what is returned if it fails, and what follows if it does not. -/
def writeThen (ssl : Tls) (data : List UInt8) (failed : Int) (next : Tls → Call Int) : Call Int :=
  (sslWrite ssl data).andThen fun rc ssl => if rc ≤ 0 then (.ok failed, ssl) else next ssl

theorem not_length_nonpos {data : List UInt8} (h : data ≠ []) : ¬ (data.length : Int) ≤ 0 := by
  have hpos := List.length_pos_of_ne_nil h
  omega

theorem writeThen_of_sent (sent : ssl.writeResults.headD .sent = .sent) {data : List UInt8}
    (nonempty : data ≠ []) (failed : Int) (next : Tls → Call Int) :
    writeThen ssl data failed next = next (wrote ssl data) := by
  simp only [writeThen, sslWrite, sent, andThen_ok, if_neg (not_length_nonpos nonempty)]
  rfl

theorem writeThen_of_unsent (unsent : ssl.writeResults.headD .sent ≠ .sent) (data : List UInt8)
    {failed : Int} (nonzero : failed ≠ 0) (next : Tls → Call Int) :
    ∃ r, r ≠ .ok 0 ∧ writeThen ssl data failed next = (r, ssl.unsent) := by
  unfold writeThen sslWrite
  cases hresult : ssl.writeResults.headD .sent with
  | sent => exact absurd hresult unsent
  | failed => exact ⟨.ok failed, by simpa using nonzero, rfl⟩
  | sigpipe => exact ⟨.error .sigpipe, by simp, rfl⟩

theorem writeThen_ne_zero (unsent : ssl.writeResults.headD .sent ≠ .sent) (data : List UInt8)
    {failed : Int} (nonzero : failed ≠ 0) (next : Tls → Call Int) :
    (writeThen ssl data failed next).1 ≠ .ok 0 := by
  obtain ⟨r, hr, hrun⟩ := writeThen_of_unsent unsent data nonzero next
  rwa [hrun]

theorem sent_take_succ_iff (n : Nat) (results : List WriteResult) :
    (∀ r ∈ results.take (n + 1), r = .sent) ↔
      results.headD .sent = .sent ∧ ∀ r ∈ results.tail.take n, r = .sent := by
  cases results with
  | nil => simp
  | cons r results => simp

theorem survives_take_succ_iff (n : Nat) (results : List WriteResult) :
    (∀ r ∈ results.take (n + 1), r ≠ .sigpipe) ↔
      results.headD .sent ≠ .sigpipe ∧ ∀ r ∈ results.tail.take n, r ≠ .sigpipe := by
  cases results with
  | nil => simp
  | cons r results => simp

end Write

section Exchange

variable {ssl : Tls} {stream : List UInt8}

theorem mqttReadExact_enough (h : Delivers ssl.incoming stream) {want : Nat}
    (enough : want ≤ stream.length) :
    ∃ rest, mqttReadExact ssl want =
        (.ok (some (stream.take want)), { ssl with incoming := rest }) ∧
      Delivers rest (stream.drop want) := by
  obtain ⟨rest, hread, hrest⟩ := readExact_eq h enough
  refine ⟨rest, ?_, hrest⟩
  simp only [mqttReadExact, hread, reduceCtorEq, false_and, if_false]

theorem mqttReadExact_short (h : Delivers ssl.incoming stream) {want : Nat}
    (short : stream.length < want) :
    (mqttReadExact ssl want).1 = .ok none ∨ (mqttReadExact ssl want).1 = .error .silence := by
  simp only [mqttReadExact, readExact_eq_none h short, true_and]
  split_ifs
  · exact Or.inr rfl
  · exact Or.inl rfl

theorem andThen_session {α β : Type} {c : Call α} {next : α → Tls → Call β}
    (keeps : ∀ a ssl, (next a ssl).2 = ssl) : (c.andThen next).2 = c.2 := by
  rcases c with ⟨stop | a, ssl⟩
  · rfl
  · exact keeps a ssl

/-- What `mqtt_connect_x509` makes of the answer to its packet. -/
def connackResult : Option (List UInt8) → Tls → Call Int
  | none, ssl => (.ok (-2), ssl)
  | some hdr, ssl =>
    if hdr.getD 0 0 &&& 0xF0 ≠ 0x20 then (.ok (-3), ssl)
    else if hdr.getD 1 0 ≠ 0x02 then (.ok (-4), ssl)
    else if hdr.getD 3 0 ≠ 0x00 then (.ok (-5), ssl)
    else (.ok 0, ssl)

theorem connackResult_session (hdr : Option (List UInt8)) (ssl : Tls) :
    (connackResult hdr ssl).2 = ssl := by
  cases hdr with
  | none => rfl
  | some hdr =>
    simp only [connackResult]
    split_ifs <;> rfl

theorem mqttConnectX509_eq (ssl : Tls) (cfg : EviAzureCfg) :
    mqttConnectX509 ssl cfg =
      writeThen ssl (connectPacket cfg) (-1) fun ssl =>
        (mqttReadExact ssl 4).andThen connackResult := rfl

theorem exists_four_of_length {xs : List UInt8} (h : 4 ≤ xs.length) :
    ∃ a b c d rest, xs = a :: b :: c :: d :: rest := by
  match xs, h with
  | a :: b :: c :: d :: rest, _ => exact ⟨a, b, c, d, rest, rfl⟩

theorem andThen_short {want : Nat} (h : Delivers ssl.incoming stream)
    (short : stream.length < want) {judge : Option (List UInt8) → Tls → Call Int}
    (refuses : ∀ ssl, (judge none ssl).1 ≠ .ok 0) :
    ((mqttReadExact ssl want).andThen judge).1 ≠ .ok 0 := by
  rcases hread : mqttReadExact ssl want with ⟨r, ssl'⟩
  have hshort := mqttReadExact_short h short
  rw [hread] at hshort
  rcases hshort with hnone | hsilent
  · obtain rfl : r = .ok none := hnone
    exact refuses ssl'
  · obtain rfl : r = .error .silence := hsilent
    rw [andThen_error]
    simp

/-- The answer is taken, and what follows it is left, exactly if it passes the test. -/
theorem connackResult_spec (h : Delivers ssl.incoming stream) :
    (MaskedConnack stream ∧ ∃ left,
      (mqttReadExact ssl 4).andThen connackResult = (.ok 0, { ssl with incoming := left }) ∧
        Delivers left (stream.drop 4)) ∨
    (¬ MaskedConnack stream ∧ ((mqttReadExact ssl 4).andThen connackResult).1 ≠ .ok 0) := by
  by_cases hlen : 4 ≤ stream.length
  · obtain ⟨left, hread, hleft⟩ := mqttReadExact_enough h hlen
    obtain ⟨a, b, flags, c, rest, rfl⟩ := exists_four_of_length hlen
    rw [hread, andThen_ok]
    simp only [connackResult, List.take_succ_cons, List.getD_cons_zero, List.getD_cons_succ]
    by_cases hok : a &&& 0xF0 = 0x20 ∧ b = 0x02 ∧ c = 0x00
    · obtain ⟨ha, rfl, rfl⟩ := hok
      rw [if_neg (not_not.mpr ha), if_neg (not_not.mpr rfl), if_neg (not_not.mpr rfl)]
      exact Or.inl ⟨⟨a, flags, rest, rfl, ha⟩, left, rfl, hleft⟩
    · refine Or.inr ⟨?_, ?_⟩
      · rintro ⟨a', flags', rest', heq, ha'⟩
        simp only [List.cons.injEq] at heq
        exact hok ⟨heq.1 ▸ ha', heq.2.1, heq.2.2.2.1⟩
      · split_ifs with ha hb hc
        · simp
        · simp
        · simp
        · exact absurd ⟨not_not.mp ha, not_not.mp hb, not_not.mp hc⟩ hok
  · refine Or.inr ⟨?_, ?_⟩
    · rintro ⟨a, flags, rest, rfl, -⟩
      apply hlen
      simp
    · exact andThen_short h (Nat.not_le.mp hlen) fun ssl => by simp [connackResult]

theorem mqttConnectX509_spec (cfg : EviAzureCfg) (h : Delivers ssl.incoming stream) :
    (ssl.writeResults.headD .sent = .sent ∧ MaskedConnack stream ∧
      ∃ ssl', mqttConnectX509 ssl cfg = (.ok 0, ssl') ∧ Delivers ssl'.incoming (stream.drop 4) ∧
        ssl'.writeResults = ssl.writeResults.tail) ∨
    (¬ (ssl.writeResults.headD .sent = .sent ∧ MaskedConnack stream) ∧
      (mqttConnectX509 ssl cfg).1 ≠ .ok 0) := by
  rw [mqttConnectX509_eq]
  by_cases hwrite : ssl.writeResults.headD .sent = .sent
  · have hsent : Delivers (wrote ssl (connectPacket cfg)).incoming stream := h
    have hne : connectPacket cfg ≠ [] := List.cons_ne_nil _ _
    rw [writeThen_of_sent hwrite hne]
    rcases connackResult_spec hsent with ⟨hmask, left, hrun, hleft⟩ | ⟨hmask, hrc⟩
    · exact Or.inl ⟨hwrite, hmask, _, hrun, hleft, rfl⟩
    · exact Or.inr ⟨fun hboth => hmask hboth.2, hrc⟩
  · exact Or.inr ⟨fun hboth => hwrite hboth.1, writeThen_ne_zero hwrite _ (by decide) _⟩

theorem remainingLoop_ne_nil (fuel val : Nat) : remainingLoop (fuel + 1) val ≠ [] := by
  simp only [remainingLoop]
  split_ifs <;> exact List.cons_ne_nil _ _

def pubackResult : Option (List UInt8) → Tls → Call Int
  | none, ssl => (.ok (-4), ssl)
  | some a, ssl => if a.getD 0 0 &&& 0xF0 ≠ 0x40 then (.ok (-5), ssl) else (.ok 0, ssl)

theorem pubackResult_session (a : Option (List UInt8)) (ssl : Tls) :
    (pubackResult a ssl).2 = ssl := by
  cases a with
  | none => rfl
  | some a =>
    simp only [pubackResult]
    split_ifs <;> rfl

theorem exists_two_of_length {xs : List UInt8} (h : 2 ≤ xs.length) :
    ∃ a b rest, xs = a :: b :: rest := by
  cases xs with
  | nil => simp at h
  | cons a xs =>
    cases xs with
    | nil => simp at h
    | cons b rest => exact ⟨a, b, rest, rfl⟩

theorem pubackResult_spec (h : Delivers ssl.incoming stream) :
    (MaskedPuback stream ∧ ∃ left,
      (mqttReadExact ssl 2).andThen pubackResult = (.ok 0, { ssl with incoming := left })) ∨
    (¬ MaskedPuback stream ∧ ((mqttReadExact ssl 2).andThen pubackResult).1 ≠ .ok 0) := by
  by_cases hlen : 2 ≤ stream.length
  · obtain ⟨left, hread, -⟩ := mqttReadExact_enough h hlen
    obtain ⟨a, b, rest, rfl⟩ := exists_two_of_length hlen
    rw [hread, andThen_ok]
    simp only [pubackResult, List.take_succ_cons, List.getD_cons_zero]
    by_cases ha : a &&& 0xF0 = 0x40
    · rw [if_neg (not_not.mpr ha)]
      exact Or.inl ⟨⟨a, b, rest, rfl, ha⟩, left, rfl⟩
    · rw [if_pos ha]
      refine Or.inr ⟨?_, by simp⟩
      rintro ⟨a', b', rest', heq, ha'⟩
      exact ha ((List.cons.inj heq).1 ▸ ha')
  · refine Or.inr ⟨?_, ?_⟩
    · rintro ⟨a, b, rest, rfl, -⟩
      apply hlen
      simp
    · exact andThen_short h (Nat.not_le.mp hlen) fun ssl => by simp [pubackResult]

theorem mqttPublishQos1_eq (ssl : Tls) (topic payload : List UInt8) (id : UInt16) :
    mqttPublishQos1 ssl topic payload id =
      writeThen ssl [0x32] (-1) fun ssl =>
        writeThen ssl (remainingLoop ((publishBody topic payload id).length + 1)
          (publishBody topic payload id).length) (-2) fun ssl =>
            writeThen ssl (publishBody topic payload id) (-3) fun ssl =>
              (mqttReadExact ssl 2).andThen pubackResult := rfl

/-- Once its three writes go out, `mqtt_publish_qos1` waits for the acknowledgement. -/
theorem mqttPublishQos1_of_writes (topic payload : List UInt8) (id : UInt16)
    (writes : ∀ r ∈ ssl.writeResults.take 3, r = .sent) :
    mqttPublishQos1 ssl topic payload id =
      (mqttReadExact (wrote (wrote (wrote ssl [0x32])
        (remainingLoop ((publishBody topic payload id).length + 1)
          (publishBody topic payload id).length)) (publishBody topic payload id)) 2).andThen
        pubackResult := by
  rw [sent_take_succ_iff 2, sent_take_succ_iff 1, sent_take_succ_iff 0] at writes
  obtain ⟨h₁, h₂, h₃, -⟩ := writes
  have hbody : publishBody topic payload id ≠ [] := List.cons_ne_nil _ _
  have hrem := remainingLoop_ne_nil (publishBody topic payload id).length
    (publishBody topic payload id).length
  have hsecond : (wrote ssl [0x32]).writeResults.headD .sent = .sent := h₂
  have hthird : ∀ rem, (wrote (wrote ssl [0x32]) rem).writeResults.headD .sent = .sent :=
    fun _ => h₃
  rw [mqttPublishQos1_eq, writeThen_of_sent h₁ (List.cons_ne_nil _ _),
    writeThen_of_sent hsecond hrem, writeThen_of_sent (hthird _) hbody]

theorem mqttPublishQos1_of_failed (topic payload : List UInt8) (id : UInt16)
    (failed : ¬ ∀ r ∈ ssl.writeResults.take 3, r = .sent) :
    (mqttPublishQos1 ssl topic payload id).1 ≠ .ok 0 := by
  rw [sent_take_succ_iff 2, sent_take_succ_iff 1, sent_take_succ_iff 0] at failed
  rw [mqttPublishQos1_eq]
  generalize hfield : remainingLoop ((publishBody topic payload id).length + 1)
    (publishBody topic payload id).length = rem
  have hrem : rem ≠ [] := hfield ▸ remainingLoop_ne_nil _ _
  generalize publishBody topic payload id = body
  by_cases h₁ : ssl.writeResults.headD .sent = .sent
  · rw [writeThen_of_sent h₁ (List.cons_ne_nil _ _)]
    by_cases h₂ : (wrote ssl [0x32]).writeResults.headD .sent = .sent
    · rw [writeThen_of_sent h₂ hrem]
      by_cases h₃ : (wrote (wrote ssl [0x32]) rem).writeResults.headD .sent = .sent
      · exact absurd ⟨h₁, h₂, h₃, by simp⟩ failed
      · exact writeThen_ne_zero h₃ body (by decide) _
    · exact writeThen_ne_zero h₂ rem (by decide) _
  · exact writeThen_ne_zero h₁ [0x32] (by decide) _

/-- `mqtt_publish_qos1` succeeds exactly when its three writes do and two bytes pass its test. -/
theorem mqttPublishQos1_spec (topic payload : List UInt8) (id : UInt16)
    (h : Delivers ssl.incoming stream) :
    ((∀ r ∈ ssl.writeResults.take 3, r = .sent) ∧ MaskedPuback stream ∧
      ∃ ssl', mqttPublishQos1 ssl topic payload id = (.ok 0, ssl') ∧
        ssl'.writeResults = ssl.writeResults.drop 3) ∨
    (¬ ((∀ r ∈ ssl.writeResults.take 3, r = .sent) ∧ MaskedPuback stream) ∧
      (mqttPublishQos1 ssl topic payload id).1 ≠ .ok 0) := by
  by_cases writes : ∀ r ∈ ssl.writeResults.take 3, r = .sent
  · rw [mqttPublishQos1_of_writes topic payload id writes]
    generalize hfinal : wrote (wrote (wrote ssl [0x32]) _) (publishBody topic payload id) = final
    have hsent : Delivers final.incoming stream := hfinal ▸ h
    have hresults : final.writeResults = ssl.writeResults.drop 3 := by
      rw [← hfinal]
      simp only [wrote, ← List.drop_one, List.drop_drop]
    rcases pubackResult_spec hsent with ⟨hmask, left, hrun⟩ | ⟨hmask, hrc⟩
    · exact Or.inl ⟨writes, hmask, _, hrun, hresults⟩
    · exact Or.inr ⟨fun hboth => hmask hboth.2, hrc⟩
  · exact Or.inr ⟨fun hboth => writes hboth.1, mqttPublishQos1_of_failed topic payload id writes⟩

theorem sslShutdown_ok_iff (ssl : Tls) (rc : Int) :
    ((sslShutdown ssl).andThen fun _ ssl => (.ok rc, ssl)).1 = .ok rc ↔
      ssl.writeResults.headD .sent ≠ .sigpipe := by
  unfold sslShutdown
  by_cases hkilled : ssl.writeResults.headD .sent = .sigpipe
  · rw [if_pos hkilled, andThen_error]
    simp only [reduceCtorEq, ne_eq, hkilled, not_true]
  · rw [if_neg hkilled, andThen_ok]
    simp only [ne_eq, hkilled, not_false_eq_true]

/-- The writes behind the acknowledgement end the exchange well unless they kill the process. -/
theorem disconnect_shutdown_iff (ssl : Tls) :
    (((mqttDisconnect ssl).andThen fun _ ssl => (.ok (0 : Int), ssl)).andThen fun rc ssl =>
        (sslShutdown ssl).andThen fun _ ssl => (.ok rc, ssl)).1 = .ok 0 ↔
      ∀ r ∈ ssl.writeResults.take 2, r ≠ .sigpipe := by
  rw [survives_take_succ_iff 1, survives_take_succ_iff 0]
  simp only [List.take_zero, List.not_mem_nil, false_implies, implies_true, and_true]
  cases hfirst : ssl.writeResults.headD .sent with
  | sigpipe =>
    simp only [mqttDisconnect, sslWrite, hfirst, andThen_error]
    simp only [reduceCtorEq, ne_eq, not_true, false_and]
  | sent =>
    simp only [mqttDisconnect, sslWrite, hfirst, andThen_ok]
    rw [sslShutdown_ok_iff]
    simp only [Tls.unsent, ne_eq, reduceCtorEq, not_false_eq_true, true_and]
  | failed =>
    simp only [mqttDisconnect, sslWrite, hfirst, andThen_ok]
    rw [sslShutdown_ok_iff]
    simp only [Tls.unsent, ne_eq, reduceCtorEq, not_false_eq_true, true_and]

theorem x509Session_ne_zero {now : Int} {cfg : EviAzureCfg}
    (h : (x509Exchange ssl now cfg).1 ≠ .ok 0) : (x509Session ssl now cfg).1 ≠ .ok 0 := by
  unfold x509Session
  rcases hrun : x509Exchange ssl now cfg with ⟨r, ssl'⟩
  rw [hrun] at h
  cases r with
  | error stop => simp
  | ok rc =>
    rw [andThen_ok]
    unfold sslShutdown
    split_ifs
    · simp
    · exact h

end Exchange

theorem azureConnRun_eq_zero_iff {net : Network} {cfg : EviAzureCfg} {ssl : Tls}
    {stream : List UInt8} (x509 : cfg.auth = .x509) (tcp : net.tcpConnect = true)
    (tls : net.tlsWrap = .ok (some ssl)) (delivers : Delivers ssl.incoming stream) :
    (azureConnRun net cfg).1 = .ok 0 ↔
      WritesSucceed ssl.writeResults ∧ MaskedAccept stream := by
  have hrun : (azureConnRun net cfg).1 = (x509Session ssl net.now cfg).1 := by
    simp only [azureConnRun, x509, tcp, if_true, tls]
  rw [hrun, WritesSucceed, sent_take_succ_iff 3, MaskedAccept]
  rcases mqttConnectX509_spec cfg delivers with
    ⟨hwrite, hconnack, ssl₁, hconnect, hleft, hresults₁⟩ | ⟨hnot, hfail⟩
  · have hpublish := mqttPublishQos1_spec (publishTopic cfg) (publishJson net.now)
      testPacketId hleft
    rw [hresults₁] at hpublish
    rcases hpublish with ⟨hwrites, hpuback, ssl₂, hacked, hresults₂⟩ | ⟨hnot, hfail⟩
    · have hlater : ssl₂.writeResults = ssl.writeResults.drop 4 := by
        rw [hresults₂, ← List.drop_one, List.drop_drop]
      have hend := disconnect_shutdown_iff ssl₂
      rw [hlater] at hend
      have hsession : x509Session ssl net.now cfg =
          ((mqttDisconnect ssl₂).andThen fun _ ssl => (.ok (0 : Int), ssl)).andThen fun rc ssl =>
            (sslShutdown ssl).andThen fun _ ssl => (.ok rc, ssl) := by
        simp only [x509Session, x509Exchange, hconnect, andThen_ok, ne_eq, not_true, if_false,
          show (1 : UInt16) = testPacketId from rfl, hacked]
      rw [hsession, hend]
      constructor
      · intro hsurvives
        exact ⟨⟨⟨hwrite, hwrites⟩, hsurvives⟩, hconnack, hpuback⟩
      · rintro ⟨⟨-, hsurvives⟩, -⟩
        exact hsurvives
    · have hexchange : (x509Exchange ssl net.now cfg).1 ≠ .ok 0 := by
        simp only [x509Exchange, hconnect, andThen_ok, ne_eq, not_true, if_false,
          show (1 : UInt16) = testPacketId from rfl]
        rcases hpub : mqttPublishQos1 ssl₁ (publishTopic cfg) (publishJson net.now) testPacketId
          with ⟨r, ssl₂⟩
        rw [hpub] at hfail
        cases r with
        | error stop => simp
        | ok rc =>
          have hrc : rc ≠ 0 := fun hzero => hfail (hzero ▸ rfl)
          simp [hrc]
      have hsession := x509Session_ne_zero hexchange
      constructor
      · intro hzero
        exact absurd hzero hsession
      · rintro ⟨⟨⟨-, hwrites⟩, -⟩, -, hpuback⟩
        exact absurd ⟨hwrites, hpuback⟩ hnot
  · have hexchange : (x509Exchange ssl net.now cfg).1 ≠ .ok 0 := by
      unfold x509Exchange
      rcases hconnect : mqttConnectX509 ssl cfg with ⟨r, ssl₁⟩
      rw [hconnect] at hfail
      cases r with
      | error stop => simp
      | ok rc =>
        have hrc : rc ≠ 0 := fun hzero => hfail (hzero ▸ rfl)
        simp [hrc]
    have hsession := x509Session_ne_zero hexchange
    constructor
    · intro hzero
      exact absurd hzero hsession
    · rintro ⟨⟨⟨hwrite, -⟩, -⟩, hconnack, -⟩
      exact absurd ⟨hwrite, hconnack⟩ hnot

/-- The fields the code leaves unread or unmasked: the low nibble of the first packet's type, and
type, length and packet identifier of the second. -/
def UncheckedRight (id : UInt16) (stream : List UInt8) : Prop :=
  stream.head? = some 0x20 ∧
    (stream.drop 4).take 4 = ([0x40, 0x02, (id >>> 8).toUInt8, id.toUInt8] : List UInt8)

theorem acceptsAndAcks_iff_unchecked {id : UInt16} {stream : List UInt8}
    (masked : MaskedAccept stream) : AcceptsAndAcks id stream ↔ UncheckedRight id stream := by
  obtain ⟨⟨a, flags, rest, rfl, -⟩, -⟩ := masked
  simp only [UncheckedRight, List.head?_cons, List.drop_succ_cons, List.drop_zero,
    Option.some.injEq]
  constructor
  · rintro ⟨flags', rest', heq⟩
    simp only [List.cons.injEq] at heq
    obtain ⟨rfl, -, -, -, rfl⟩ := heq
    exact ⟨rfl, rfl⟩
  · rintro ⟨rfl, htake⟩
    refine ⟨flags, rest.drop 4, ?_⟩
    rw [← List.take_append_drop 4 rest, htake]
    simp

/-- A return value of 0 means an accepted and acknowledged publication exactly when the stream, if
it passes the tests of the code, also has the fields right that the code does not test. -/
theorem zero_only_on_ack_iff {net : Network} {cfg : EviAzureCfg} {ssl : Tls}
    {stream : List UInt8} (x509 : cfg.auth = .x509) (tcp : net.tcpConnect = true)
    (tls : net.tlsWrap = .ok (some ssl)) (delivers : Delivers ssl.incoming stream) :
    ((azureConnRun net cfg).1 = .ok 0 → AcceptsAndAcks testPacketId stream) ↔
      (WritesSucceed ssl.writeResults → MaskedAccept stream →
        UncheckedRight testPacketId stream) := by
  rw [azureConnRun_eq_zero_iff x509 tcp tls delivers]
  constructor
  · intro h writes masked
    exact (acceptsAndAcks_iff_unchecked masked).mp (h ⟨writes, masked⟩)
  · rintro h ⟨writes, masked⟩
    exact (acceptsAndAcks_iff_unchecked masked).mpr (h writes masked)

def brokerSends (stream : List UInt8) : Network :=
  ⟨0, true, .ok (some ⟨[stream], true, [], []⟩),
    ⟨fun _ => none, fun _ _ => [], fun _ => none⟩⟩

def goodReplies : List UInt8 := [0x20, 0x02, 0x00, 0x00, 0x40, 0x02, 0x00, 0x01]

theorem zero_on_good_replies :
    (azureConnRun (brokerSends goodReplies) templateCfg).1 = .ok 0 ∧
      AcceptsAndAcks testPacketId goodReplies := by
  have delivers : Delivers [goodReplies] goodReplies := ⟨rfl, by simp [goodReplies]⟩
  have masked : MaskedAccept goodReplies := ⟨⟨_, _, _, rfl, rfl⟩, _, _, _, rfl, rfl⟩
  have writes : WritesSucceed [] := by simp [WritesSucceed]
  have hzero : (azureConnRun (brokerSends goodReplies) templateCfg).1 = .ok 0 :=
    (azureConnRun_eq_zero_iff rfl rfl rfl delivers).mpr ⟨writes, masked⟩
  exact ⟨hzero, (zero_only_on_ack_iff rfl rfl rfl delivers).mpr (fun _ _ => ⟨rfl, rfl⟩) hzero⟩

def foreignReplies : List UInt8 := [0x20, 0x02, 0x00, 0x00, 0x40, 0x02, 0x00, 0x07]

/-- The acknowledgement of another packet is taken for the awaited one. -/
theorem zero_on_foreign_puback :
    ¬ ∀ (net : Network) (cfg : EviAzureCfg) (ssl : Tls) (stream : List UInt8),
      cfg.auth = .x509 → net.tcpConnect = true → net.tlsWrap = .ok (some ssl) →
        Delivers ssl.incoming stream → (azureConnRun net cfg).1 = .ok 0 →
          AcceptsAndAcks testPacketId stream := by
  intro h
  have masked : MaskedAccept foreignReplies :=
    ⟨⟨_, _, _, rfl, rfl⟩, _, _, _, rfl, rfl⟩
  have delivers : Delivers [foreignReplies] foreignReplies := ⟨rfl, by simp [foreignReplies]⟩
  have writes : WritesSucceed [] := by simp [WritesSucceed]
  have hzero : (azureConnRun (brokerSends foreignReplies) templateCfg).1 = .ok 0 :=
    (azureConnRun_eq_zero_iff rfl rfl rfl delivers).mpr ⟨writes, masked⟩
  have hack := (acceptsAndAcks_iff_unchecked masked).mp (h _ _ _ _ rfl rfl rfl delivers hzero)
  exact absurd hack.2 (by decide)

end Evi7688.Azureiotd.Session
