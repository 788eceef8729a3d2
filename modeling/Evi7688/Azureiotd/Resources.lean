/- Evi7688/Azureiotd/Resources
   digest: What azureiotd obtains from the system, uses and gives back, whatever fails on the way. -/

import Evi7688.Azureiotd.Main
import Evi7688.Library.Ledger

set_option autoImplicit false
set_option relaxedAutoImplicit false

namespace Evi7688.Azureiotd.Resources

open Evi7688.Library.Bytes (ascii snprintf)
open Evi7688.Library.Numerals (decimal)
open Evi7688.Library.Ledger
open Conn (Stop Tls Network)
open Main (Cfg Uci)

/-- The heap blocks of azure_conn.c, by the variable that receives them. -/
inductive Block
  | sr | key | b64sig | sig | token
  deriving DecidableEq

inductive Bio
  | base64 | mem
  deriving DecidableEq

/-- The two functions that set up a chain of BIOs. -/
inductive Codec
  | decode | encode
  deriving DecidableEq

inductive Resource
  | uciContext
  | addrinfo
  | socket (fd : Nat)
  | sslCtx
  | ssl
  | bio (b : Bio)
  | block (b : Block)
  deriving DecidableEq

/-- An entry of the address list: the descriptor `socket` returns for it, and whether `connect`
succeeds. -/
structure Candidate where
  socket : Option Nat
  connect : Bool

/-- How the system answers. A decoding that `BIO_read` reports with no positive count is empty. -/
structure System where
  uci : Option Uci
  now : Int
  malloc : Block → Bool
  bioNew : Codec → Bio → Bool
  bioRead : List UInt8 → List UInt8
  bioWrite : List UInt8 → List UInt8
  hmacSha256 : List UInt8 → List UInt8 → List UInt8
  getaddrinfo : Option (List Candidate)
  sslCtxNew : Bool
  useCertificateFile : Bool
  usePrivateKeyFile : Bool
  sslNew : Bool
  sslConnect : Except Stop (Option Tls)

section Token

def urlEncode (sys : System) (out : Block) (s : List UInt8) :
    Guarded Resource (Option (List UInt8)) :=
  if sys.malloc out then do
    acquire (.block out)
    return some (SasToken.urlEncode s)
  else return none

/-- Both BIOs of a chain; if one is missing, the other is given back. -/
def bioPair (sys : System) (codec : Codec) : Guarded Resource Bool := do
  request (sys.bioNew codec .base64) (.bio .base64)
  request (sys.bioNew codec .mem) (.bio .mem)
  if sys.bioNew codec .base64 && sys.bioNew codec .mem then return true
  else
    settle (sys.bioNew codec .base64) (.bio .base64)
    settle (sys.bioNew codec .mem) (.bio .mem)
    return false

def bioFreeAll : Guarded Resource Unit := do
  release (.bio .base64)
  release (.bio .mem)

def b64Decode (sys : System) (input : List UInt8) : Guarded Resource (Option (List UInt8)) := do
  if ← bioPair sys .decode then
    if sys.malloc .key then
      acquire (.block .key)
      use (.bio .base64)
      bioFreeAll
      if sys.bioRead input = [] then
        release (.block .key)
        return none
      else return some (sys.bioRead input)
    else
      bioFreeAll
      return none
  else return none

def b64Encode (sys : System) (data : List UInt8) : Guarded Resource (Option (List UInt8)) := do
  if ← bioPair sys .encode then
    use (.bio .base64)
    request (sys.malloc .b64sig) (.block .b64sig)
    bioFreeAll
    return if sys.malloc .b64sig then some (sys.bioWrite data) else none
  else return none

/-- The end of `azure_sas_build_token`, from the signature on. -/
def assembleToken (sys : System) (sr b64sig : List UInt8) (se : Int) :
    Guarded Resource (Option (List UInt8)) := do
  use (.block .b64sig)
  let sig ← urlEncode sys .sig b64sig
  release (.block .b64sig)
  match sig with
  | none =>
    release (.block .sr)
    return none
  | some sig =>
    request (sys.malloc .token) (.block .token)
    use (.block .sr)
    use (.block .sig)
    release (.block .sr)
    release (.block .sig)
    return if sys.malloc .token then
      some (snprintf 1024 (ascii "SharedAccessSignature sr=" ++ sr ++ ascii "&sig=" ++ sig ++
        ascii "&se=" ++ decimal se))
    else none

def azureSasBuildToken (sys : System) (host deviceId b64Key : List UInt8) (ttlSecs : Int) :
    Guarded Resource (Option (List UInt8)) :=
  if host = [] ∨ deviceId = [] ∨ b64Key = [] then return none
  else do
    let se := sys.now + (if ttlSecs > 0 then ttlSecs else 3600)
    match ← urlEncode sys .sr (snprintf 512 (host ++ ascii "/devices/" ++ deviceId)) with
    | none => return none
    | some sr =>
      use (.block .sr)
      let stringToSign := snprintf 1024 (sr ++ [0x0A] ++ decimal se)
      match ← b64Decode sys b64Key with
      | none =>
        release (.block .sr)
        return none
      | some key =>
        use (.block .key)
        let digest := sys.hmacSha256 key stringToSign
        release (.block .key)
        match ← b64Encode sys digest with
        | none =>
          release (.block .sr)
          return none
        | some b64sig => assembleToken sys sr b64sig se

end Token

section Connection

/-- The loop over the address list: a socket that does not connect is closed. -/
def tryCandidates : List Candidate → Guarded Resource (Option Nat)
  | [] => return none
  | rp :: rest =>
    match rp.socket with
    | none => tryCandidates rest
    | some s => do
      acquire (.socket s)
      use .addrinfo
      use (.socket s)
      if rp.connect then return some s
      else
        release (.socket s)
        tryCandidates rest

def tcpConnect (sys : System) : Guarded Resource (Option Nat) :=
  match sys.getaddrinfo with
  | none => return none
  | some res => do
    acquire .addrinfo
    let s ← tryCandidates res
    release .addrinfo
    return s

/-- The context is set up as far as the certificate and the key are given. -/
def loadCredentials (sys : System) (cfg : Cfg) : Guarded Resource Bool := do
  use .sslCtx
  if cfg.x509Cert.bytes ≠ [] && !sys.useCertificateFile then
    release .sslCtx
    return false
  else if cfg.x509Key.bytes ≠ [] && !sys.usePrivateKeyFile then
    release .sslCtx
    return false
  else return true

/-- A call that is stopped in the handshake gives nothing back. -/
def tlsWrapSocket (sys : System) (cfg : Cfg) (sock : Nat) :
    Guarded Resource (Except Stop (Option Tls)) :=
  if sys.sslCtxNew then do
    acquire .sslCtx
    if ← loadCredentials sys cfg then
      if sys.sslNew then
        use .sslCtx
        acquire .ssl
        use (.socket sock)
        match sys.sslConnect with
        | .error stop => return .error stop
        | .ok none =>
          release .ssl
          release .sslCtx
          return .ok none
        | .ok (some ssl) => return .ok (some ssl)
      else
        release .sslCtx
        return .ok none
    else return .ok none
  else return .ok none

/-- A call on the session reads or writes its socket. -/
def useSession (sock : Nat) : Guarded Resource Unit := do
  use .ssl
  use (.socket sock)

def closeSocket (sock : Nat) : Guarded Resource Unit := do
  use (.socket sock)
  release (.socket sock)

/-- The end of `azure_conn_run` from the handshake on. -/
def runSession (sys : System) (cfg : Cfg) (sock : Nat) (ssl : Tls) :
    Guarded Resource (Except Stop Int) := do
  useSession sock
  match Conn.x509Exchange ssl sys.now cfg.toEviAzureCfg with
  | (.error stop, _) => return .error stop
  | (.ok rc, ssl) =>
    useSession sock
    match Conn.sslShutdown ssl with
    | (.error stop, _) => return .error stop
    | (.ok _, _) =>
      closeSocket sock
      return .ok rc

def azureConnRun (sys : System) (cfg : Cfg) : Guarded Resource (Except Stop Int) :=
  match cfg.auth with
  | .sas => do
    match ← azureSasBuildToken sys cfg.host.bytes cfg.deviceId.bytes cfg.sasKey.bytes
        (if cfg.sasTtl.toInt > 0 then cfg.sasTtl.toInt else 3600) with
    | none => return .ok (-2)
    | some _ =>
      use (.block .token)
      release (.block .token)
      return .ok 0
  | .x509 => do
    match ← tcpConnect sys with
    | none => return .ok (-1)
    | some sock =>
      match ← tlsWrapSocket sys cfg sock with
      | .error stop => return .error stop
      | .ok none =>
        closeSocket sock
        return .ok (-1)
      | .ok (some ssl) => runSession sys cfg sock ssl

def exitCode (rc : Int) : Int := rc % 256

/-- `main`: the exit status of the process, if it ends by itself. -/
def main (sys : System) : Guarded Resource (Except Stop Int) := do
  if sys.uci.isSome then
    acquire .uciContext
    use .uciContext
    release .uciContext
  match Main.main sys.uci with
  | none => return .ok 2
  | some cfg =>
    let r ← azureConnRun sys cfg
    return r.map exitCode

end Connection

/-- What the answers of the system come to for the exchange. -/
def decoded (sys : System) (input : List UInt8) : Option (List UInt8) :=
  if (sys.bioNew .decode .base64 && sys.bioNew .decode .mem) && sys.malloc .key &&
    !(sys.bioRead input).isEmpty then some (sys.bioRead input) else none

def encoded (sys : System) (data : List UInt8) : Option (List UInt8) :=
  if (sys.bioNew .encode .base64 && sys.bioNew .encode .mem) && sys.malloc .b64sig then
    some (sys.bioWrite data)
  else none

def firstConnected (res : List Candidate) : Option Nat :=
  res.findSome? fun rp => if rp.connect then rp.socket else none

def connected (sys : System) : Option Nat := firstConnected (sys.getaddrinfo.getD [])

def credentialsLoad (sys : System) (cfg : Cfg) : Bool :=
  (cfg.x509Cert.bytes = [] || sys.useCertificateFile) &&
    (cfg.x509Key.bytes = [] || sys.usePrivateKeyFile)

def session (sys : System) (cfg : Cfg) : Except Stop (Option Tls) :=
  if sys.sslCtxNew && credentialsLoad sys cfg && sys.sslNew then sys.sslConnect else .ok none

/-- A block that cannot be allocated looks to the caller like a failure of the codec next to it. -/
def network (sys : System) (cfg : Cfg) : Network where
  now := sys.now
  tcpConnect := (connected sys).isSome
  tlsWrap := session sys cfg
  crypto :=
    { b64Decode := fun input => if sys.malloc .sr then decoded sys input else none
      hmacSha256 := sys.hmacSha256
      b64Encode := fun data =>
        if sys.malloc .sig && sys.malloc .token then encoded sys data else none }

section Codec

variable (sys : System) {held : Finset Resource}

theorem run_urlEncode (out : Block) (s : List UInt8) (fresh : .block out ∉ held) :
    (urlEncode sys out s).run held =
      some (if sys.malloc out then some (SasToken.urlEncode s) else none,
        if sys.malloc out then insert (.block out) held else held) := by
  unfold urlEncode
  cases sys.malloc out with
  | true => simp [run_acquire fresh]
  | false => rfl

theorem run_bioPair (codec : Codec) (base64 : .bio .base64 ∉ held) (mem : .bio .mem ∉ held) :
    (bioPair sys codec).run held =
      some (sys.bioNew codec .base64 && sys.bioNew codec .mem,
        if sys.bioNew codec .base64 && sys.bioNew codec .mem then
          insert (.bio .mem) (insert (.bio .base64) held) else held) := by
  unfold bioPair
  cases sys.bioNew codec .base64 with
  | true =>
    cases sys.bioNew codec .mem with
    | true => simp [request, run_acquire, base64, mem]
    | false => simp [request, settle, run_acquire, run_release, base64]
  | false =>
    cases sys.bioNew codec .mem with
    | true => simp [request, settle, run_acquire, run_release, mem]
    | false => simp [request, settle]

theorem run_bioFreeAll (base64 : .bio .base64 ∉ held) (mem : .bio .mem ∉ held) :
    bioFreeAll.run (insert (.bio .mem) (insert (.bio .base64) held)) = some ((), held) := by
  have hbase64 : .bio .base64 ∉ insert (Resource.bio .mem) held := by simp [base64]
  unfold bioFreeAll
  rw [Finset.insert_comm]
  simp [run_release, Finset.erase_insert hbase64, Finset.erase_insert mem]

theorem run_bioFreeAll_under (b : Block) (base64 : .bio .base64 ∉ held)
    (mem : .bio .mem ∉ held) :
    bioFreeAll.run (insert (.block b) (insert (.bio .mem) (insert (.bio .base64) held))) =
      some ((), insert (.block b) held) := by
  rw [Finset.insert_comm (.block b : Resource), Finset.insert_comm (.block b : Resource)]
  exact run_bioFreeAll (by simp [base64]) (by simp [mem])

theorem run_b64Decode (input : List UInt8) (base64 : .bio .base64 ∉ held) (mem : .bio .mem ∉ held)
    (key : .block .key ∉ held) :
    (b64Decode sys input).run held =
      some (decoded sys input,
        if (decoded sys input).isSome then insert (.block .key) held else held) := by
  unfold b64Decode decoded
  cases hpair : sys.bioNew .decode .base64 && sys.bioNew .decode .mem with
  | false => simp [run_bioPair sys .decode base64 mem, hpair]
  | true =>
    cases hkey : sys.malloc .key with
    | false => simp [run_bioPair sys .decode base64 mem, hpair, run_bioFreeAll base64 mem]
    | true =>
      have hfree := run_bioFreeAll_under .key base64 mem
      cases hread : sys.bioRead input with
      | nil => simp [run_bioPair sys .decode base64 mem, hpair, run_acquire, key, run_use, hfree,
          run_release]
      | cons b bs => simp [run_bioPair sys .decode base64 mem, hpair, run_acquire, key, run_use,
          hfree]

theorem run_b64Encode (data : List UInt8) (base64 : .bio .base64 ∉ held) (mem : .bio .mem ∉ held)
    (b64sig : .block .b64sig ∉ held) :
    (b64Encode sys data).run held =
      some (encoded sys data,
        if (encoded sys data).isSome then insert (.block .b64sig) held else held) := by
  unfold b64Encode encoded
  cases hpair : sys.bioNew .encode .base64 && sys.bioNew .encode .mem with
  | false => simp [run_bioPair sys .encode base64 mem, hpair]
  | true =>
    cases hsig : sys.malloc .b64sig with
    | false => simp [run_bioPair sys .encode base64 mem, hpair, run_use, request,
        run_bioFreeAll base64 mem]
    | true => simp [run_bioPair sys .encode base64 mem, hpair, run_use, request, run_acquire,
        b64sig, run_bioFreeAll_under .b64sig base64 mem]

end Codec

section Token

variable (sys : System)

theorem run_assembleToken (sr b64sig : List UInt8) (se : Int) :
    (assembleToken sys sr b64sig se).run {.block .b64sig, .block .sr} =
      some (if sys.malloc .sig && sys.malloc .token then
          some (snprintf 1024 (ascii "SharedAccessSignature sr=" ++ sr ++ ascii "&sig=" ++
            SasToken.urlEncode b64sig ++ ascii "&se=" ++ decimal se))
        else none,
        if sys.malloc .sig && sys.malloc .token then {.block .token} else ∅) := by
  unfold assembleToken
  cases hsig : sys.malloc .sig with
  | false => simp [run_use, run_urlEncode, hsig, run_release]
  | true =>
    have hsigned : ({.block .sig, .block .b64sig, .block .sr} : Finset Resource).erase
        (.block .b64sig) = {.block .sig, .block .sr} := by decide
    cases sys.malloc .token with
    | false =>
      have hdone : (({.block .sig, .block .sr} : Finset Resource).erase (.block .sr)).erase
          (.block .sig) = ∅ := by decide
      simp [run_use, run_urlEncode, hsig, run_release, request, hsigned, hdone]
    | true =>
      have hdone : (({.block .token, .block .sig, .block .sr} : Finset Resource).erase
          (.block .sr)).erase (.block .sig) = {.block .token} := by decide
      simp [run_use, run_urlEncode, hsig, run_release, request, run_acquire, hsigned, hdone]

theorem run_azureSasBuildToken (cfg : Cfg) (host deviceId b64Key : List UInt8) (ttlSecs : Int) :
    (azureSasBuildToken sys host deviceId b64Key ttlSecs).run ∅ =
      some (SasToken.azureSasBuildToken (network sys cfg).crypto sys.now host deviceId b64Key
          ttlSecs,
        if (SasToken.azureSasBuildToken (network sys cfg).crypto sys.now host deviceId b64Key
          ttlSecs).isSome then {.block .token} else ∅) := by
  unfold azureSasBuildToken SasToken.azureSasBuildToken SasToken.sasTokenAt
  by_cases hempty : host = [] ∨ deviceId = [] ∨ b64Key = []
  · simp [hempty]
  simp only [hempty, if_false]
  generalize snprintf 512 (host ++ ascii "/devices/" ++ deviceId) = uri
  generalize sys.now + (if ttlSecs > 0 then ttlSecs else 3600) = se
  cases hsr : sys.malloc .sr with
  | false => simp [run_urlEncode, hsr, network]
  | true =>
    cases hkey : decoded sys b64Key with
    | none => simp [run_urlEncode, hsr, network, run_use, run_b64Decode, hkey, run_release]
    | some key =>
      generalize hdigest : sys.hmacSha256 key
        (snprintf 1024 (SasToken.urlEncode uri ++ 0x0A :: decimal se)) = digest
      cases hb64sig : encoded sys digest with
      | none => simp [run_urlEncode, hsr, network, run_use, run_b64Decode, hkey, run_release,
          run_b64Encode, hdigest, hb64sig]
      | some b64sig =>
        by_cases hboth : sys.malloc .sig = true ∧ sys.malloc .token = true
        · simp [run_urlEncode, hsr, network, run_use, run_b64Decode, hkey, run_release,
            run_b64Encode, hdigest, hb64sig, run_assembleToken, hboth]
        · simp [run_urlEncode, hsr, network, run_use, run_b64Decode, hkey, run_release,
            run_b64Encode, hdigest, hb64sig, run_assembleToken, hboth]

end Token

section Connection

variable (sys : System) {held : Finset Resource}

theorem run_tryCandidates (candidates : List Candidate) (addrinfo : .addrinfo ∈ held)
    (fresh : ∀ s, .socket s ∉ held) :
    (tryCandidates candidates).run held =
      some (firstConnected candidates,
        (firstConnected candidates).elim held fun s => insert (.socket s) held) := by
  unfold firstConnected
  induction candidates with
  | nil => rfl
  | cons rp rest ih =>
    cases hsocket : rp.socket with
    | none => simp [tryCandidates, hsocket, ih]
    | some s =>
      cases hconnect : rp.connect with
      | true => simp [tryCandidates, hsocket, hconnect, run_acquire, fresh s, run_use, addrinfo]
      | false => simp [tryCandidates, hsocket, hconnect, run_acquire, fresh s, run_use, addrinfo,
          run_release, Finset.erase_insert (fresh s), ih]

theorem run_tcpConnect :
    (tcpConnect sys).run ∅ =
      some (connected sys, (connected sys).elim ∅ fun s => {.socket s}) := by
  unfold tcpConnect connected
  cases sys.getaddrinfo with
  | none => rfl
  | some res =>
    cases hfirst : firstConnected res with
    | none => simp [run_acquire, run_tryCandidates, hfirst, run_release]
    | some s =>
      have hrest : ({.socket s, .addrinfo} : Finset Resource).erase .addrinfo = {.socket s} := by
        rw [Finset.pair_comm, Finset.erase_insert (by simp)]
      simp [run_acquire, run_tryCandidates, hfirst, run_release, hrest]

theorem run_loadCredentials (cfg : Cfg) (sslCtx : .sslCtx ∉ held) :
    (loadCredentials sys cfg).run (insert .sslCtx held) =
      some (credentialsLoad sys cfg,
        if credentialsLoad sys cfg then insert .sslCtx held else held) := by
  have hfree := run_release (Finset.mem_insert_self Resource.sslCtx held)
  rw [Finset.erase_insert sslCtx] at hfree
  unfold loadCredentials credentialsLoad
  by_cases hcert : cfg.x509Cert.bytes ≠ [] ∧ sys.useCertificateFile = false
  · simp [run_use, hcert, hfree]
  · by_cases hkey : cfg.x509Key.bytes ≠ [] ∧ sys.usePrivateKeyFile = false
    · simp [run_use, hcert, hkey, hfree]
    · have hboth : (cfg.x509Cert.bytes = [] ∨ sys.useCertificateFile = true) ∧
          (cfg.x509Key.bytes = [] ∨ sys.usePrivateKeyFile = true) := by grind
      simp [run_use, hcert, hkey, hboth]

/-- What is held when `tls_wrap_socket` returns, or is stopped, on a socket. -/
def afterWrap (sock : Nat) : Except Stop (Option Tls) → Finset Resource
  | .ok none => {.socket sock}
  | _ => {.ssl, .sslCtx, .socket sock}

theorem run_tlsWrapSocket (cfg : Cfg) (sock : Nat) :
    (tlsWrapSocket sys cfg sock).run {.socket sock} =
      some (session sys cfg, afterWrap sock (session sys cfg)) := by
  unfold tlsWrapSocket session
  cases sys.sslCtxNew with
  | false => rfl
  | true =>
    cases hload : credentialsLoad sys cfg with
    | false => simp [run_acquire, run_loadCredentials, hload, afterWrap]
    | true =>
      cases sys.sslNew with
      | false => simp [run_acquire, run_loadCredentials, hload, run_release, afterWrap]
      | true =>
        match sys.sslConnect with
        | .error stop => simp [run_acquire, run_loadCredentials, hload, run_use, afterWrap]
        | .ok none =>
          simp [run_acquire, run_loadCredentials, hload, run_use, run_release, afterWrap]
        | .ok (some ssl) => simp [run_acquire, run_loadCredentials, hload, run_use, afterWrap]

theorem run_closeSocket (sock : Nat) (fresh : .socket sock ∉ held) :
    (closeSocket sock).run (insert (.socket sock) held) = some ((), held) := by
  unfold closeSocket
  simp [run_use, run_release, Finset.erase_insert fresh]

/-- What is left of a session: nothing is given back in a stopped one, and the socket in one that
comes to its end. -/
def leftOfSession (sock : Nat) : Except Stop Int → Finset Resource
  | .error _ => {.ssl, .sslCtx, .socket sock}
  | .ok _ => {.ssl, .sslCtx}

theorem run_runSession (cfg : Cfg) (sock : Nat) (ssl : Tls) :
    (runSession sys cfg sock ssl).run {.ssl, .sslCtx, .socket sock} =
      some ((Conn.x509Session ssl sys.now cfg.toEviAzureCfg).1,
        leftOfSession sock (Conn.x509Session ssl sys.now cfg.toEviAzureCfg).1) := by
  have hclose : (closeSocket sock).run (insert (.socket sock) {.ssl, .sslCtx}) =
      some ((), {.ssl, .sslCtx}) := run_closeSocket sock (by simp)
  have hheld : insert (.socket sock) {.ssl, .sslCtx} =
      ({.ssl, .sslCtx, .socket sock} : Finset Resource) := by
    rw [Finset.insert_comm, Finset.pair_comm]
  rw [hheld] at hclose
  unfold runSession Conn.x509Session
  rcases Conn.x509Exchange ssl sys.now cfg.toEviAzureCfg with ⟨stop | rc, ssl₁⟩
  · simp [useSession, run_use, leftOfSession]
  · rcases hshutdown : Conn.sslShutdown ssl₁ with ⟨stop | _, ssl₂⟩
    · simp [useSession, run_use, leftOfSession, hshutdown]
    · simp [useSession, run_use, leftOfSession, hshutdown, hclose]

/-- What the process holds at its end: of a connection with a handshake the session and its context,
and the socket too in a process that is stopped. -/
def leftOver (cfg : Cfg) : Finset Resource :=
  match cfg.auth, connected sys, session sys cfg with
  | .x509, some sock, .ok (some ssl) =>
    leftOfSession sock (Conn.x509Session ssl sys.now cfg.toEviAzureCfg).1
  | .x509, some sock, .error _ => {.ssl, .sslCtx, .socket sock}
  | _, _, _ => ∅

theorem run_azureConnRun (cfg : Cfg) :
    (azureConnRun sys cfg).run ∅ =
      some ((Conn.azureConnRun (network sys cfg) cfg.toEviAzureCfg).1, leftOver sys cfg) := by
  unfold azureConnRun Conn.azureConnRun leftOver
  cases cfg.auth with
  | sas =>
    have htoken := run_azureSasBuildToken sys cfg cfg.host.bytes cfg.deviceId.bytes
      cfg.sasKey.bytes (if cfg.sasTtl.toInt > 0 then cfg.sasTtl.toInt else 3600)
    have hnow : (network sys cfg).now = sys.now := rfl
    simp only [hnow]
    cases htok : SasToken.azureSasBuildToken (network sys cfg).crypto sys.now cfg.host.bytes
        cfg.deviceId.bytes cfg.sasKey.bytes
        (if cfg.sasTtl.toInt > 0 then cfg.sasTtl.toInt else 3600) with
    | none =>
      rw [htok] at htoken
      simp [htoken]
    | some token =>
      rw [htok] at htoken
      simp [htoken, run_use, run_release]
  | x509 =>
    cases hsock : connected sys with
    | none => simp [run_tcpConnect, hsock, network]
    | some sock =>
      rcases hssl : session sys cfg with stop | _ | ssl
      · simp [run_tcpConnect, hsock, network, run_tlsWrapSocket, hssl, afterWrap]
      · have hclose : (closeSocket sock).run (insert (.socket sock) ∅) = some ((), ∅) :=
          run_closeSocket sock (by simp)
        rw [insert_empty_eq] at hclose
        simp [run_tcpConnect, hsock, network, run_tlsWrapSocket, hssl, afterWrap, hclose]
      · simp [run_tcpConnect, hsock, network, run_tlsWrapSocket, hssl, afterWrap, run_runSession]

/-- What the answers of the system and of the broker make of the process. -/
def exitStatus : Except Stop Int :=
  match Main.main sys.uci with
  | none => .ok 2
  | some cfg => (Conn.azureConnRun (network sys cfg) cfg.toEviAzureCfg).1.map exitCode

theorem run_main_of_uci {α : Type} (rest : Guarded Resource α) :
    (do
      if sys.uci.isSome then
        acquire Resource.uciContext
        use .uciContext
        release .uciContext
      rest).run ∅ = rest.run ∅ := by
  cases sys.uci with
  | none => simp
  | some ctx => simp [run_acquire, run_use, run_release]

/-- Whatever the system refuses and the broker sends, `azureiotd` uses a resource only while it has
it and gives it back once. A process that ends by itself leaves the TLS session and its context,
exactly when the handshake succeeded, and its exit status is the one of the exchange; one that is
killed or waits for ever on its session holds the socket as well. -/
theorem azureiotd_settles :
    (main sys).run ∅ = some (exitStatus sys, (Main.main sys.uci).elim ∅ (leftOver sys)) := by
  unfold main exitStatus
  rw [run_main_of_uci]
  cases Main.main sys.uci with
  | none => rfl
  | some cfg => simp [run_azureConnRun]

end Connection

end Evi7688.Azureiotd.Resources
