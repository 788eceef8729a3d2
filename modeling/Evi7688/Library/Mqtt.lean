/- Evi7688/Library/Mqtt
   digest: The MQTT 3.1.1 wire grammar: remaining lengths, strings, CONNECT bodies, PUBLISH packets and short acknowledgements. -/

import Mathlib.Tactic.Common
import Mathlib.Data.List.Basic

set_option autoImplicit false
set_option relaxedAutoImplicit false

namespace Evi7688.Library.Mqtt

/-- A base-128 integer, least significant group first; a set top bit announces another byte. -/
def decodeGroups : Nat → List UInt8 → Option (Nat × List UInt8)
  | 0, _ => none
  | _ + 1, [] => none
  | budget + 1, b :: rest =>
    if b.toNat < 128 then some (b.toNat, rest)
    else (decodeGroups budget rest).map fun r => (b.toNat - 128 + 128 * r.1, r.2)

/-- The remaining length of a fixed header occupies at most four bytes. -/
def decodeRemainingLength (bs : List UInt8) : Option (Nat × List UInt8) := decodeGroups 4 bs

/-- A packet is framed when its remaining length counts exactly the bytes after that field. -/
def Framed (type : UInt8) (packet : List UInt8) : Prop :=
  ∃ field body, packet = type :: field ∧
    decodeRemainingLength field = some (body.length, body)

/-- A string or binary field: a big-endian 16-bit length and that many bytes. -/
def takeField (bs : List UInt8) : Option (List UInt8 × List UInt8) :=
  match bs with
  | hi :: lo :: rest =>
    if rest.length < 256 * hi.toNat + lo.toNat then none
    else some (rest.take (256 * hi.toNat + lo.toNat), rest.drop (256 * hi.toNat + lo.toNat))
  | _ => none

def takeOptional (announced : Bool) (bs : List UInt8) :
    Option (Option (List UInt8) × List UInt8) :=
  if announced then (takeField bs).map fun r => (some r.1, r.2) else some (none, bs)

structure Connect where
  protocol : List UInt8
  level : UInt8
  flags : UInt8
  keepAlive : Nat
  clientId : List UInt8
  willTopic : Option (List UInt8)
  willMessage : Option (List UInt8)
  username : Option (List UInt8)
  password : Option (List UInt8)
  deriving DecidableEq

/-- Parse a CONNECT body: the variable header, then exactly the fields its flags announce, in the
order client id, will topic, will message, user name, password. -/
def parseConnect (body : List UInt8) : Option (Connect × List UInt8) := do
  let (protocol, bs) ← takeField body
  match bs with
  | level :: flags :: hi :: lo :: bs =>
    let (clientId, bs) ← takeField bs
    let (willTopic, bs) ← takeOptional (flags &&& 0x04 != 0) bs
    let (willMessage, bs) ← takeOptional (flags &&& 0x04 != 0) bs
    let (username, bs) ← takeOptional (flags &&& 0x80 != 0) bs
    let (password, bs) ← takeOptional (flags &&& 0x40 != 0) bs
    some (⟨protocol, level, flags, 256 * hi.toNat + lo.toNat, clientId, willTopic, willMessage,
      username, password⟩, bs)
  | _ => none

/-- A CONNECT packet from the front of a stream, and what follows it. -/
def takeConnect (stream : List UInt8) : Option (Connect × List UInt8) :=
  match stream with
  | [] => none
  | first :: bs =>
    if first ≠ 0x10 then none
    else
      match decodeRemainingLength bs with
      | none => none
      | some (length, bs) =>
        if bs.length < length then none
        else
          match parseConnect (bs.take length) with
          | some (c, []) => some (c, bs.drop length)
          | _ => none

structure Publish where
  dup : Bool
  qos : UInt8
  retain : Bool
  topic : List UInt8
  packetId : Option Nat
  payload : List UInt8
  deriving DecidableEq

/-- The variable header and the payload; a packet identifier is there for QoS 1 and 2 only. -/
def parsePublish (flags : UInt8) (body : List UInt8) : Option Publish :=
  match takeField body with
  | none => none
  | some (topic, bs) =>
    let qos := (flags >>> 1) &&& 0x03
    if qos = 0 then some ⟨flags &&& 0x08 != 0, qos, flags &&& 0x01 != 0, topic, none, bs⟩
    else if qos = 3 then none
    else
      match bs with
      | hi :: lo :: payload => some ⟨flags &&& 0x08 != 0, qos, flags &&& 0x01 != 0, topic,
          some (256 * hi.toNat + lo.toNat), payload⟩
      | _ => none

/-- A PUBLISH packet from the front of a stream, and what follows it. -/
def takePublish (stream : List UInt8) : Option (Publish × List UInt8) :=
  match stream with
  | [] => none
  | first :: bs =>
    if first &&& 0xF0 ≠ 0x30 then none
    else
      match decodeRemainingLength bs with
      | none => none
      | some (length, bs) =>
        if bs.length < length then none
        else (parsePublish (first &&& 0x0F) (bs.take length)).map fun p => (p, bs.drop length)

/-- The stream opens with a CONNACK that accepts the connection, directly followed by the PUBACK
of packet `id`. -/
def AcceptsAndAcks (id : UInt16) (stream : List UInt8) : Prop :=
  ∃ (flags : UInt8) (rest : List UInt8), stream = 0x20 :: 0x02 :: flags :: 0x00 ::
    0x40 :: 0x02 :: (id >>> 8).toUInt8 :: id.toUInt8 :: rest

theorem decodeRemainingLength_short {b : UInt8} (h : b.toNat < 128) (rest : List UInt8) :
    decodeRemainingLength (b :: rest) = some (b.toNat, rest) := by
  simp only [decodeRemainingLength, decodeGroups, if_pos h]

theorem decodeRemainingLength_zero_next {b : UInt8} (h : 128 ≤ b.toNat) (rest : List UInt8) :
    decodeRemainingLength (b :: 0x00 :: rest) = some (b.toNat - 128, rest) := by
  simp [decodeRemainingLength, decodeGroups, show ¬ b.toNat < 128 by omega]

theorem takeField_append {text : List UInt8} (h : text.length < 65536) (rest : List UInt8) :
    takeField (UInt8.ofNat (text.length / 256) :: UInt8.ofNat (text.length % 256) ::
      (text ++ rest)) = some (text, rest) := by
  have hlen : 256 * (UInt8.ofNat (text.length / 256)).toNat +
      (UInt8.ofNat (text.length % 256)).toNat = text.length := by
    simp only [UInt8.toNat_ofNat']
    omega
  simp only [takeField, hlen, List.length_append, List.take_left', List.drop_left']
  rw [if_neg (by omega)]

theorem takePublish_framed {first : UInt8} {field body rest : List UInt8}
    (type : first &&& 0xF0 = 0x30)
    (counted : decodeRemainingLength field = some (body.length, body ++ rest)) :
    takePublish (first :: field) =
      (parsePublish (first &&& 0x0F) body).map fun p => (p, rest) := by
  have hlength : ¬ (body ++ rest).length < body.length := by
    rw [List.length_append]
    omega
  simp only [takePublish, if_neg (not_not.mpr type), counted, if_neg hlength, List.take_left,
    List.drop_left]

@[simp] theorem takeField_nil : takeField [] = none := rfl

section Prefixes

theorem takeField_append_of_some {bs field rest : List UInt8} (h : takeField bs = some (field, rest))
    (more : List UInt8) : takeField (bs ++ more) = some (field, rest ++ more) := by
  match bs, h with
  | hi :: lo :: tail, h =>
    simp only [takeField] at h
    split_ifs at h with hshort
    obtain ⟨rfl, rfl⟩ := Prod.mk.inj (Option.some.inj h)
    have hlong : ¬ (tail ++ more).length < 256 * hi.toNat + lo.toNat := by
      rw [List.length_append]
      omega
    simp only [takeField, List.cons_append, if_neg hlong]
    rw [List.take_append_of_le_length (by omega), List.drop_append_of_le_length (by omega)]

theorem takeOptional_append_of_some {announced : Bool} {bs rest : List UInt8}
    {field : Option (List UInt8)} (h : takeOptional announced bs = some (field, rest))
    (more : List UInt8) : takeOptional announced (bs ++ more) = some (field, rest ++ more) := by
  cases announced with
  | false =>
    obtain ⟨rfl, rfl⟩ := Prod.mk.inj (Option.some.inj h)
    rfl
  | true =>
    obtain ⟨⟨text, tail⟩, hfield, heq⟩ := Option.map_eq_some_iff.mp h
    obtain ⟨rfl, rfl⟩ := Prod.mk.inj heq
    have hmore := takeField_append_of_some hfield more
    simp only [takeOptional, if_true, hmore, Option.map_some]

theorem parseConnect_append_of_some {bs rest : List UInt8} {c : Connect}
    (h : parseConnect bs = some (c, rest)) (more : List UInt8) :
    parseConnect (bs ++ more) = some (c, rest ++ more) := by
  unfold parseConnect at h ⊢
  obtain ⟨⟨protocol, bs₁⟩, hprotocol, h⟩ := Option.bind_eq_some_iff.mp h
  match bs₁, h with
  | level :: flags :: hi :: lo :: bs₂, h =>
    obtain ⟨⟨clientId, bs₃⟩, hclient, h⟩ := Option.bind_eq_some_iff.mp h
    obtain ⟨⟨topic, bs₄⟩, htopic, h⟩ := Option.bind_eq_some_iff.mp h
    obtain ⟨⟨message, bs₅⟩, hmessage, h⟩ := Option.bind_eq_some_iff.mp h
    obtain ⟨⟨username, bs₆⟩, husername, h⟩ := Option.bind_eq_some_iff.mp h
    obtain ⟨⟨password, bs₇⟩, hpassword, h⟩ := Option.bind_eq_some_iff.mp h
    obtain ⟨rfl, rfl⟩ := Prod.mk.inj (Option.some.inj h)
    simp only [takeField_append_of_some hprotocol more, Option.bind_eq_bind, Option.bind_some,
      List.cons_append, takeField_append_of_some hclient more,
      takeOptional_append_of_some htopic more, takeOptional_append_of_some hmessage more,
      takeOptional_append_of_some husername more, takeOptional_append_of_some hpassword more]

end Prefixes

end Evi7688.Library.Mqtt
