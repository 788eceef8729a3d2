/- Evi7688/Azureiotd/DpsCertificate
   digest: Key, certificate and chain files under the command sequence of dps_generate_certificates. -/

import Evi7688.Library.CrashProgram

set_option autoImplicit false
set_option relaxedAutoImplicit false

namespace Evi7688.Azureiotd.DpsCertificate

open Evi7688.Library.CrashProgram

/-- A block of a PEM file. Keys are told apart by the order in which they were generated; `debris`
is what a failing command may leave. -/
inductive Pem
  | key (id : Nat)
  | request (id : Nat)
  | leaf (id : Nat)
  | intermediate
  | root
  | debris
  deriving DecidableEq

/-- The files of one serial number, and the number of keys generated so far. -/
structure Files where
  key : Option (List Pem)
  csr : Option (List Pem)
  cert : Option (List Pem)
  chain : Option (List Pem)
  generated : Nat
  deriving DecidableEq

def Files.none : Files := ⟨.none, .none, .none, .none, 0⟩

/-- The calls of `system` in `dps_generate_certificates`. -/
inductive Command
  | setNetLink | setAzureBinding | setKeyChange | setMqttBinding | commitPending
  | makeDirs | resetIndex
  | genrsa | req | ca | x509 | cat
  | clearKeyChange | commitDone | sync
  | firstboot
  deriving DecidableEq

/-- How a command goes. A failing one may leave debris in its output file; `kept` is what a
failing `cat` leaves. -/
structure Outcome where
  ok : Bool
  debris : Bool
  kept : List Pem
  deriving DecidableEq

/-- One call: whether the serial number is found, how each command goes if it is reached, and
after which commands the power is lost. -/
structure Attempt where
  serial : Bool
  outcome : Command → Outcome
  lost : Command → Bool

def requestFor : Option (List Pem) → List Pem
  | some [.key id] => [.request id]
  | _ => [.debris]

def leafFor : Option (List Pem) → List Pem
  | some [.request id] => [.leaf id]
  | _ => [.debris]

def fullChain (cert : Option (List Pem)) : List Pem := cert.getD [] ++ [.intermediate, .root]

def spoiled (o : Outcome) (file : Option (List Pem)) : Option (List Pem) :=
  if o.debris then some [.debris] else file

/-- Output of a `cat` that failed: blocks are missing or cut to debris, and it is not complete. -/
def cutShort (o : Outcome) (full : List Pem) : List Pem :=
  if (o.kept.filter (· ≠ .debris)).isSublist full && o.kept ≠ full then o.kept else []

def effect (c : Command) (o : Outcome) (s : Files) : Files :=
  match c with
  | .genrsa =>
    if o.ok then { s with key := some [.key s.generated], generated := s.generated + 1 }
    else { s with key := spoiled o s.key }
  | .req => { s with csr := if o.ok then some (requestFor s.key) else spoiled o s.csr }
  | .ca => { s with cert := if o.ok then some (leafFor s.csr) else spoiled o s.cert }
  | .cat =>
    let full := fullChain s.cert
    { s with chain := some (if o.ok then full else cutShort o full) }
  | .firstboot => if o.ok then { Files.none with generated := s.generated } else s
  | _ => s

def dpsCheckCertificatesExist (s : Files) : Bool := s.key.isSome && s.chain.isSome

/-- The body of the function, once the serial number is there and the files were looked for. -/
def generate : Program Command :=
  ignoring [.setNetLink, .setAzureBinding, .setKeyChange, .setMqttBinding, .commitPending,
    .makeDirs, .resetIndex] <|
  .command .genrsa fun ok =>
    if !ok then .ret (-1) else
  .command .req fun ok =>
    if !ok then .ret (-1) else
  .command .ca fun ok =>
    if !ok then .ret (-1) else
  .command .x509 fun ok =>
    if ok then ignoring [.cat, .clearKeyChange, .commitDone, .sync] (.ret 0)
    else ignoring [.firstboot] (.ret (-1))

def dpsGenerateCertificates (serial present : Bool) : Program Command :=
  if !serial then .ret (-1)
  else if present then ignoring [.clearKeyChange, .commitDone] (.ret 0)
  else generate

def Attempt.act (a : Attempt) (c : Command) (s : Files) : Bool × Files :=
  ((a.outcome c).ok, effect c (a.outcome c) s)

/-- One call on the files: its return code, unless the power is lost, and the files after it. -/
def Attempt.run (a : Attempt) (s : Files) : Option Int × Files :=
  exec a.act a.lost (dpsGenerateCertificates a.serial (dpsCheckCertificatesExist s)) s

inductive Event
  | call (a : Attempt)
  | deleteKey
  | deleteChain

def Event.apply (s : Files) : Event → Files
  | .call a => (a.run s).2
  | .deleteKey => { s with key := .none }
  | .deleteChain => { s with chain := .none }

def after (events : List Event) : Files := events.foldl Event.apply Files.none

end Evi7688.Azureiotd.DpsCertificate
