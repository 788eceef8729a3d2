/- Evi7688/Azureiotd/Conn
   digest: The MQTT exchange of azure_conn.c over a TLS session. -/

import Evi7688.Azureiotd.SasToken
import Evi7688.Library.Mqtt
import Evi7688.Library.Pieces

set_option autoImplicit false
set_option relaxedAutoImplicit false

namespace Evi7688.Azureiotd.Conn

open Evi7688.Library.Bytes (ascii snprintf CArray)
open Evi7688.Library.Numerals (decimal)
open Evi7688.Library.Pieces (readExact)
open SasToken (Openssl azureSasBuildToken)

inductive EviAuthMode
  | sas | x509
  deriving DecidableEq

/-- The configuration fields the connection code reads; `int` fields are 32 bits wide. -/
structure EviAzureCfg where
  host : CArray 256
  deviceId : CArray 128
  auth : EviAuthMode
  sasKey : CArray 256
  sasTtl : BitVec 32
  keepalive : BitVec 32
  deriving DecidableEq

def templateCfg : EviAzureCfg where
  host := ⟨⟨ascii "your-hub.azure-devices.net", by decide⟩, by decide⟩
  deviceId := ⟨⟨ascii "myDevice", by decide⟩, by decide⟩
  auth := .x509
  sasKey := ⟨.empty, by decide⟩
  sasTtl := 3600
  keepalive := 60

/-- How a call may never return: a write to a connection that the broker has closed or reset raises
`SIGPIPE`, which nothing ignores, and a read waits for a broker that is silent. -/
inductive Stop
  | sigpipe | silence
  deriving DecidableEq

inductive WriteResult
  | sent | failed | sigpipe
  deriving DecidableEq

/-- A TLS session: the broker's bytes in the pieces `SSL_read` returns, whether the broker keeps the
connection open behind them (if not, their end stands for a closed connection), what becomes of the
coming writes (they are sent once the list is used up), and what was written so far. An empty piece
ends the bytes, too. -/
structure Tls where
  incoming : List (List UInt8)
  keptOpen : Bool
  writeResults : List WriteResult
  written : List (List UInt8)
  deriving DecidableEq

/-- What a call on the session returns, if it returns, and the session after it. -/
abbrev Call (α : Type) := Except Stop α × Tls

def Call.andThen {α β : Type} (c : Call α) (next : α → Tls → Call β) : Call β :=
  match c with
  | (.ok a, ssl) => next a ssl
  | (.error stop, ssl) => (.error stop, ssl)

@[simp] theorem andThen_ok {α β : Type} (a : α) (ssl : Tls) (next : α → Tls → Call β) :
    Call.andThen (.ok a, ssl) next = next a ssl := rfl

@[simp] theorem andThen_error {α β : Type} (stop : Stop) (ssl : Tls) (next : α → Tls → Call β) :
    Call.andThen (.error stop, ssl) next = (.error stop, ssl) := rfl

/-- The session once the next write was not sent. -/
def Tls.unsent (ssl : Tls) : Tls := { ssl with writeResults := ssl.writeResults.tail }

/-- `SSL_write`: all of `data` goes out, or nothing and a result that is not positive. -/
def sslWrite (ssl : Tls) (data : List UInt8) : Call Int :=
  match ssl.writeResults.headD .sent with
  | .sent => (.ok data.length, { ssl.unsent with written := ssl.written ++ [data] })
  | .failed => (.ok (-1), ssl.unsent)
  | .sigpipe => (.error .sigpipe, ssl.unsent)

/-- `SSL_shutdown` writes, too; its result is dropped. -/
def sslShutdown (ssl : Tls) : Call Unit :=
  (if ssl.writeResults.headD .sent = .sigpipe then .error .sigpipe else .ok (), ssl.unsent)

/-- `mqtt_read_exact`: `SSL_read` until `want` bytes are there. -/
def mqttReadExact (ssl : Tls) (want : Nat) : Call (Option (List UInt8)) :=
  let r := readExact want ssl.incoming
  (if r.1 = none ∧ ssl.keptOpen then .error .silence else .ok r.1, { ssl with incoming := r.2 })

def mqttWriteStr (s : List UInt8) : List UInt8 :=
  UInt8.ofNat ((s.length >>> 8) &&& 0xFF) :: UInt8.ofNat (s.length &&& 0xFF) :: s

/-- The low byte of an `int` after an arithmetic right shift. -/
def byteOfInt (v : BitVec 32) (shift : Nat) : UInt8 :=
  UInt8.ofBitVec ((v.sshiftRight shift &&& 0xFF#32).setWidth 8)

def connectUsername (cfg : EviAzureCfg) : List UInt8 :=
  cfg.host.bytes ++ ascii "/" ++ cfg.deviceId.bytes ++ ascii "/?api-version=2021-04-12"

/-- The part of `pkt` from `pkt + 2` to the write pointer. -/
def connectBody (cfg : EviAzureCfg) : List UInt8 :=
  mqttWriteStr (ascii "MQTT") ++ [4, 0xC2] ++
    [byteOfInt cfg.keepalive 8, byteOfInt cfg.keepalive 0] ++
    mqttWriteStr cfg.deviceId.bytes ++ mqttWriteStr (snprintf 512 (connectUsername cfg))

/-- The CONNECT packet in `pkt`: `pkt[1]` is the body length cut to one byte. -/
def connectPacket (cfg : EviAzureCfg) : List UInt8 :=
  0x10 :: UInt8.ofNat (connectBody cfg).length :: connectBody cfg

def mqttConnectX509 (ssl : Tls) (cfg : EviAzureCfg) : Call Int :=
  (sslWrite ssl (connectPacket cfg)).andThen fun rc ssl =>
    if rc ≤ 0 then (.ok (-1), ssl)
    else (mqttReadExact ssl 4).andThen fun
      | none, ssl => (.ok (-2), ssl)
      | some hdr, ssl =>
        if hdr.getD 0 0 &&& 0xF0 ≠ 0x20 then (.ok (-3), ssl)
        else if hdr.getD 1 0 ≠ 0x02 then (.ok (-4), ssl)
        else if hdr.getD 3 0 ≠ 0x00 then (.ok (-5), ssl)
        else (.ok 0, ssl)

/-- The do-while loop that spells the remaining length; `fuel` bounds its rounds. -/
def remainingLoop : Nat → Nat → List UInt8
  | 0, _ => []
  | fuel + 1, val =>
    let b := UInt8.ofNat (val % 128)
    if 0 < val / 128 then (b ||| 0x80) :: remainingLoop fuel (val / 128) else [b]

def publishBody (topic payload : List UInt8) (packetId : UInt16) : List UInt8 :=
  mqttWriteStr topic ++
    [((packetId >>> 8) &&& 0xFF).toUInt8, (packetId &&& 0xFF).toUInt8] ++ payload

def mqttPublishQos1 (ssl : Tls) (topic payload : List UInt8) (packetId : UInt16) : Call Int :=
  let body := publishBody topic payload packetId
  (sslWrite ssl [0x32]).andThen fun rc ssl =>
    if rc ≤ 0 then (.ok (-1), ssl)
    else (sslWrite ssl (remainingLoop (body.length + 1) body.length)).andThen fun rc ssl =>
      if rc ≤ 0 then (.ok (-2), ssl)
      else (sslWrite ssl body).andThen fun rc ssl =>
        if rc ≤ 0 then (.ok (-3), ssl)
        else (mqttReadExact ssl 2).andThen fun
          | none, ssl => (.ok (-4), ssl)
          | some a, ssl => if a.getD 0 0 &&& 0xF0 ≠ 0x40 then (.ok (-5), ssl) else (.ok 0, ssl)

def mqttDisconnect (ssl : Tls) : Call Int :=
  (sslWrite ssl [0xE0, 0x00]).andThen fun rc ssl => (.ok (if rc = 2 then 0 else -1), ssl)

/-- What surrounds the exchange: the clock, the results of `tcp_connect` and `tls_wrap_socket`,
and the cryptographic services. -/
structure Network where
  now : Int
  tcpConnect : Bool
  tlsWrap : Except Stop (Option Tls)
  crypto : Openssl

/-- The topic and the message of the test publication. The version macro is not expanded: its name
stands between quotes. -/
def publishTopic (cfg : EviAzureCfg) : List UInt8 :=
  snprintf 256 (ascii "devices/" ++ cfg.deviceId.bytes ++ ascii "/messages/events/")

def publishJson (now : Int) : List UInt8 :=
  snprintf 256 (ascii "\x7b\"ts\":" ++ decimal now ++
    ascii ",\"msg\":\"hello from azureiotd  AZUREIOTD_VERSION \"\x7d")

def x509Exchange (ssl : Tls) (now : Int) (cfg : EviAzureCfg) : Call Int :=
  (mqttConnectX509 ssl cfg).andThen fun rc ssl =>
    if rc ≠ 0 then (.ok (-1), ssl)
    else (mqttPublishQos1 ssl (publishTopic cfg) (publishJson now) 1).andThen fun rc ssl =>
      if rc ≠ 0 then (.ok (-1), ssl) else (mqttDisconnect ssl).andThen fun _ ssl => (.ok 0, ssl)

/-- The exchange, and the end of the session on every path. -/
def x509Session (ssl : Tls) (now : Int) (cfg : EviAzureCfg) : Call Int :=
  (x509Exchange ssl now cfg).andThen fun rc ssl =>
    (sslShutdown ssl).andThen fun _ ssl => (.ok rc, ssl)

def azureConnRun (net : Network) (cfg : EviAzureCfg) : Except Stop Int × Option Tls :=
  match cfg.auth with
  | .sas =>
    match azureSasBuildToken net.crypto net.now cfg.host.bytes cfg.deviceId.bytes
        cfg.sasKey.bytes (if cfg.sasTtl.toInt > 0 then cfg.sasTtl.toInt else 3600) with
    | none => (.ok (-2), none)
    | some _ => (.ok 0, none)
  | .x509 =>
    if net.tcpConnect then
      match net.tlsWrap with
      | .error stop => (.error stop, none)
      | .ok none => (.ok (-1), none)
      | .ok (some ssl) =>
        let r := x509Session ssl net.now cfg
        (r.1, some r.2)
    else (.ok (-1), none)

end Evi7688.Azureiotd.Conn
