/- Evi7688/Azureiotd/PacketBuffers
   digest: The MQTT packets as they are written into their buffers, which the declared sizes of the
   configuration keep from overflowing. -/

import Evi7688.Azureiotd.PublishPacket
import Evi7688.Library.BoundedWriter

set_option autoImplicit false
set_option relaxedAutoImplicit false

namespace Evi7688.Azureiotd.PacketBuffers

open Evi7688.Library.Bytes (ascii snprintf snprintf_eq_self)
open Evi7688.Library.BoundedWriter (BufferWriter)
open Evi7688.Library.Numerals (decimal length_decimal_le_of_natAbs)
open Conn
open ConnectPacket (length_mqttWriteStr length_connectUsername snprintf_connectUsername
  length_connectBody)
open PublishPacket (length_publishBody)

section Builders

variable {cap : Nat}

/-- Writes that keep the strings `mqtt_write_str` is called with; one behind a buffer is `none`. -/
abbrev Writes (α : Type) := StateT (List (List UInt8)) Option α

/-- `mqtt_write_str` at the write pointer of a buffer. -/
def mqttWriteStrTo (s : List UInt8) (w : BufferWriter UInt8 cap) :
    Writes (BufferWriter UInt8 cap) := do
  modify (· ++ [s])
  let w ← w.put (UInt8.ofNat ((s.length >>> 8) &&& 0xFF))
  let w ← w.put (UInt8.ofNat (s.length &&& 0xFF))
  w.puts s

/-- The writes to `pkt`. The second byte is left out at first: it holds anything, here a zero. -/
def connectWrites (cfg : EviAzureCfg) : Writes (BufferWriter UInt8 1024) := do
  let w ← (BufferWriter.fresh : BufferWriter UInt8 1024).put 0x10
  let w ← w.put 0
  let w ← mqttWriteStrTo (ascii "MQTT") w
  let w ← w.put 4
  let w ← w.put 0xC2
  let w ← w.put (byteOfInt cfg.keepalive 8)
  let w ← w.put (byteOfInt cfg.keepalive 0)
  let w ← mqttWriteStrTo cfg.deviceId.bytes w
  mqttWriteStrTo (snprintf 512 (connectUsername cfg)) w

/-- `pkt` once `pkt[1]` is filled in. -/
def connectPkt (cfg : EviAzureCfg) : Writes (BufferWriter UInt8 1024) := do
  let w ← connectWrites cfg
  w.overwrite 1 (UInt8.ofNat (w.written.length - 2))

def publishVb (topic payload : List UInt8) (packetId : UInt16) :
    Writes (BufferWriter UInt8 1024) := do
  let w ← mqttWriteStrTo topic BufferWriter.fresh
  let w ← w.put ((packetId >>> 8) &&& 0xFF).toUInt8
  let w ← w.put (packetId &&& 0xFF).toUInt8
  w.puts payload

/-- The do-while loop on `rem`. -/
def remLoop : Nat → Nat → BufferWriter UInt8 cap → Option (BufferWriter UInt8 cap)
  | 0, _, w => some w
  | fuel + 1, val, w =>
    let b := UInt8.ofNat (val % 128)
    if 0 < val / 128 then (w.put (b ||| 0x80)).bind (remLoop fuel (val / 128)) else w.put b

end Builders

/-- The texts that are formatted into `topic` and `json`. -/
def topicText (cfg : EviAzureCfg) : List UInt8 :=
  ascii "devices/" ++ cfg.deviceId.bytes ++ ascii "/messages/events/"

def jsonText (now : Int) : List UInt8 :=
  ascii "\x7b\"ts\":" ++ decimal now ++
    ascii ",\"msg\":\"hello from azureiotd  AZUREIOTD_VERSION \"\x7d"

/-- The strings that `mqtt_write_str` is called with in one `azure_conn_run`. -/
def writtenStrings (cfg : EviAzureCfg) (now : Int) : Option (List (List UInt8)) := do
  let (_, strings) ← (connectPkt cfg).run []
  let (_, strings) ← (publishVb (publishTopic cfg) (publishJson now) 1).run strings
  pure strings

/-- The packet identifier 1 is the one that `azure_conn_run` publishes with. -/
def runBody (cfg : EviAzureCfg) (now : Int) : List UInt8 :=
  publishBody (publishTopic cfg) (publishJson now) 1

/-- Nothing is cut off, and nothing is written behind a buffer. -/
structure BuildersFit (cfg : EviAzureCfg) (now : Int) : Prop where
  username : snprintf 512 (connectUsername cfg) = connectUsername cfg
  topic : publishTopic cfg = topicText cfg
  json : publishJson now = jsonText now
  pkt : ((connectPkt cfg).run' []).map (·.written) = some (connectPacket cfg)
  vb : ((publishVb (publishTopic cfg) (publishJson now) 1).run' []).map (·.written) =
    some (runBody cfg now)
  rem : (remLoop ((runBody cfg now).length + 1) (runBody cfg now).length
      (BufferWriter.fresh : BufferWriter UInt8 4)).map (·.written) =
    some (remainingLoop ((runBody cfg now).length + 1) (runBody cfg now).length)
  strings : ∃ strings, writtenStrings cfg now = some strings ∧ ∀ s ∈ strings, s.length < 65536

/-- The strings of the CONNECT packet. -/
def connectStrings (cfg : EviAzureCfg) : List (List UInt8) :=
  [ascii "MQTT", cfg.deviceId.bytes, snprintf 512 (connectUsername cfg)]

section Runs

variable {cap : Nat} (log : List (List UInt8))

theorem run_write (write : Option (BufferWriter UInt8 cap)) :
    (liftM write : Writes (BufferWriter UInt8 cap)).run log = write.map (·, log) := by
  cases write <;> rfl

theorem run_mqttWriteStrTo (s : List UInt8) (w : BufferWriter UInt8 cap) :
    (mqttWriteStrTo s w).run log = (w.puts (mqttWriteStr s)).map (·, log ++ [s]) := by
  simp only [mqttWriteStrTo, mqttWriteStr, BufferWriter.puts, StateT.run_bind, StateT.run_modify,
    run_write, Option.bind_eq_bind, Option.pure_def, Option.bind_some, Option.bind_map,
    Option.map_bind, Function.comp_def]

theorem run_connectWrites (cfg : EviAzureCfg) :
    (connectWrites cfg).run log =
      (BufferWriter.fresh.puts (0x10 :: 0 :: connectBody cfg)).map
        (·, log ++ connectStrings cfg) := by
  have hbytes : 0x10 :: 0 :: connectBody cfg =
      [0x10, 0] ++ (mqttWriteStr (ascii "MQTT") ++
        ([4, 0xC2, byteOfInt cfg.keepalive 8, byteOfInt cfg.keepalive 0] ++
          (mqttWriteStr cfg.deviceId.bytes ++
            mqttWriteStr (snprintf 512 (connectUsername cfg))))) := by
    simp only [connectBody, List.append_assoc, List.cons_append, List.nil_append]
  rw [hbytes, connectWrites, connectStrings]
  simp only [StateT.run_bind, run_write, run_mqttWriteStrTo, BufferWriter.puts_append,
    BufferWriter.puts, Option.bind_eq_bind, Option.bind_map, Option.map_bind, Function.comp_def,
    List.append_assoc, List.cons_append, List.nil_append]

theorem run_publishVb (topic payload : List UInt8) (packetId : UInt16) :
    (publishVb topic payload packetId).run log =
      (BufferWriter.fresh.puts (publishBody topic payload packetId)).map (·, log ++ [topic]) := by
  rw [publishBody, publishVb]
  simp only [StateT.run_bind, run_write, run_mqttWriteStrTo, BufferWriter.puts_append,
    BufferWriter.puts, Option.bind_eq_bind, Option.bind_assoc, Option.bind_some, Option.bind_map,
    Option.map_bind, Function.comp_def]

end Runs

theorem remLoop_eq {cap : Nat} (fuel val : Nat) (w : BufferWriter UInt8 cap) :
    remLoop fuel val w = w.puts (remainingLoop fuel val) := by
  induction fuel generalizing val w with
  | zero => rfl
  | succ fuel ih =>
    rw [remLoop, remainingLoop]
    split_ifs with hmore
    · rw [BufferWriter.puts]
      congr 1
      funext w
      exact ih (val / 128) w
    · exact (BufferWriter.puts_singleton w _).symm

theorem length_remainingLoop_le {fuel val k : Nat} (h : val < 128 ^ (k + 1)) :
    (remainingLoop fuel val).length ≤ k + 1 := by
  induction k generalizing fuel val with
  | zero =>
    cases fuel with
    | zero => exact Nat.zero_le _
    | succ fuel =>
      rw [remainingLoop, if_neg (by omega)]
      exact Nat.le_refl 1
  | succ k ih =>
    cases fuel with
    | zero => exact Nat.zero_le _
    | succ fuel =>
      have htail : val / 128 < 128 ^ (k + 1) := by
        rw [Nat.pow_succ] at h
        exact Nat.div_lt_of_lt_mul (by omega)
      have hrest : (remainingLoop fuel (val / 128)).length ≤ k + 1 := ih htail
      rw [remainingLoop]
      split_ifs
      · rw [List.length_cons]
        omega
      · exact Nat.le_add_left 1 (k + 1)

theorem length_topicText (cfg : EviAzureCfg) :
    (topicText cfg).length = cfg.deviceId.bytes.length + 25 := by
  simp only [topicText, List.length_append, show (ascii "devices/").length = 8 from rfl,
    show (ascii "/messages/events/").length = 17 from rfl]
  omega

theorem length_jsonText (now : Int) : (jsonText now).length = (decimal now).length + 56 := by
  simp only [jsonText, List.length_append, show (ascii "\x7b\"ts\":").length = 6 from rfl,
    show (ascii ",\"msg\":\"hello from azureiotd  AZUREIOTD_VERSION \"\x7d").length = 50 from rfl]
  omega

theorem publishTopic_eq (cfg : EviAzureCfg) : publishTopic cfg = topicText cfg := by
  have hdevice := cfg.deviceId.fits
  have hlength := length_topicText cfg
  exact snprintf_eq_self (show (topicText cfg).length < 256 by omega)

theorem length_jsonText_le (now : BitVec 64) : (jsonText now.toInt).length ≤ 76 := by
  have hclock : (decimal now.toInt).length ≤ 20 := by
    apply length_decimal_le_of_natAbs (by omega)
    have hlower := BitVec.le_toInt now
    have hupper := BitVec.toInt_lt (x := now)
    omega
  rw [length_jsonText]
  omega

theorem publishJson_eq (now : BitVec 64) : publishJson now.toInt = jsonText now.toInt := by
  have hlength := length_jsonText_le now
  exact snprintf_eq_self (show (jsonText now.toInt).length < 256 by omega)

theorem length_runBody_le (cfg : EviAzureCfg) (now : BitVec 64) :
    (runBody cfg now.toInt).length ≤ 232 := by
  have hdevice := cfg.deviceId.fits
  have hjson := length_jsonText_le now
  rw [runBody, length_publishBody, publishTopic_eq, publishJson_eq, length_topicText]
  omega

theorem run_connectPkt (log : List (List UInt8)) (cfg : EviAzureCfg) :
    ∃ w, (connectPkt cfg).run log = some (w, log ++ connectStrings cfg) ∧
      w.written = connectPacket cfg := by
  have hhost := cfg.host.fits
  have hdevice := cfg.deviceId.fits
  have hbody := length_connectBody cfg
  have hroom : (0x10 :: 0 :: connectBody cfg).length ≤ 1024 := by
    simp only [List.length_cons]
    omega
  rw [connectPkt, StateT.run_bind, run_connectWrites, BufferWriter.fresh_puts hroom]
  exact ⟨_, rfl, rfl⟩

theorem run_publishVb_fits (log : List (List UInt8)) {topic payload : List UInt8} {id : UInt16}
    (h : (publishBody topic payload id).length ≤ 1024) :
    (publishVb topic payload id).run log =
      some (⟨publishBody topic payload id, h⟩, log ++ [topic]) := by
  rw [run_publishVb, BufferWriter.fresh_puts h]
  rfl

theorem remLoop_written {val : Nat} (h : val < 128 ^ 4) :
    (remLoop (val + 1) val (BufferWriter.fresh : BufferWriter UInt8 4)).map (·.written) =
      some (remainingLoop (val + 1) val) := by
  rw [remLoop_eq, BufferWriter.fresh_puts (length_remainingLoop_le h)]
  rfl

theorem writtenStrings_eq (cfg : EviAzureCfg) (now : BitVec 64) :
    writtenStrings cfg now.toInt = some (connectStrings cfg ++ [publishTopic cfg]) := by
  have hbody := length_runBody_le cfg now
  obtain ⟨w, hconnect, -⟩ := run_connectPkt [] cfg
  rw [writtenStrings, hconnect]
  simp only [Option.bind_eq_bind, Option.bind_some]
  rw [run_publishVb_fits _ (by rw [runBody] at hbody; omega)]
  rfl

theorem length_writtenStrings {cfg : EviAzureCfg} :
    ∀ s ∈ connectStrings cfg ++ [publishTopic cfg], s.length < 65536 := by
  have hhost := cfg.host.fits
  have hdevice := cfg.deviceId.fits
  have husername := length_connectUsername cfg
  have htopic := length_topicText cfg
  intro s hs
  simp only [connectStrings, snprintf_connectUsername, publishTopic_eq, List.cons_append,
    List.nil_append, List.mem_cons, List.not_mem_nil, or_false] at hs
  rcases hs with rfl | rfl | rfl | rfl
  · exact show 4 < 65536 by omega
  · omega
  · omega
  · omega

/-- The declared sizes of host and device id bound every text, and a clock of 64 bits the
message. -/
theorem buildersFit (cfg : EviAzureCfg) (now : BitVec 64) : BuildersFit cfg now.toInt := by
  have hbody := length_runBody_le cfg now
  obtain ⟨w, hconnect, hwritten⟩ := run_connectPkt [] cfg
  have hvb := run_publishVb_fits [] (show (runBody cfg now.toInt).length ≤ 1024 by omega)
  exact
    { username := snprintf_connectUsername cfg
      topic := publishTopic_eq cfg
      json := publishJson_eq now
      pkt := by rw [StateT.run'_eq, hconnect]; exact congrArg some hwritten
      vb := by rw [StateT.run'_eq, hvb]; rfl
      rem := remLoop_written (by omega)
      strings := ⟨_, writtenStrings_eq cfg now, length_writtenStrings⟩ }

end Evi7688.Azureiotd.PacketBuffers
