/- Evi7688/Azureiotd/SasVerifier
   digest: A token at the other end: who reads which resource and expiry out of it, and accepts it. -/

import Evi7688.Azureiotd.SasComplete
import Evi7688.Azureiotd.UrlEncode
import Evi7688.Library.NamedFields

set_option autoImplicit false
set_option relaxedAutoImplicit false

namespace Evi7688.Azureiotd.SasVerifier

open Evi7688.Library.Bytes (ascii snprintf snprintf_eq_self)
open Evi7688.Library.NamedFields
open Evi7688.Library.Numerals
open Evi7688.Library.PercentCoding (decode decode_encode encoded_encode unreservedBytes)
open SasComplete
open SasToken (Openssl unreserved sasTokenAt)
open UrlEncode (mem_unreservedBytes urlEncode_eq)

def ampersand : UInt8 := 0x26

def scheme : List UInt8 := ascii "SharedAccessSignature "

def fieldNames : List (List UInt8) := [ascii "sr=", ascii "sig=", ascii "se="]

/-- The time a decimal text stands for. -/
def expires (se : List UInt8) : Option Nat :=
  if se ≠ [] ∧ se.all isDigit then some (digitsValue 10 se) else none

/-- The other end, with the key of the device in hand. -/
structure Verifier where
  key : List UInt8
  hmacSha256 : List UInt8 → List UInt8 → List UInt8
  unbase64 : List UInt8 → Option (List UInt8)

/-- A token opens a resource: it names it, its signature is the one over what it names, and it has
not expired. -/
def Verifier.Accepts (v : Verifier) (token uri : List UInt8) (time : Int) : Prop :=
  ∃ sr sig se, parse ampersand scheme fieldNames token = some [sr, sig, se] ∧
    decode sr = some uri ∧
    (decode sig).bind v.unbase64 = some (v.hmacSha256 v.key (sr ++ [0x0A] ++ se)) ∧
    ∃ e, expires se = some e ∧ time < e

section Fields

theorem expires_decimal (e : Int) : expires (decimal e) = if 0 ≤ e then some e.toNat else none := by
  split_ifs with h
  · have hnat : decimal e = decimalNat e.toNat := by
      rw [decimal, if_neg (by omega), Int.toNat_of_nonneg h |> congrArg Int.natAbs |>.symm]
      rfl
    have hdigits : (decimalNat e.toNat).all isDigit = true :=
      List.all_eq_true.mpr (decimalNat_isDigit e.toNat)
    rw [hnat, expires, if_pos ⟨decimalNat_ne_nil _, hdigits⟩, digitsValue_decimalNat]
  · have hminus : decimal e = 0x2D :: decimalNat e.natAbs := by
      rw [decimal, if_pos (by omega)]
      rfl
    have hsign : isDigit 0x2D = false := by decide
    rw [hminus, expires, List.all_cons, hsign, Bool.false_and]
    exact if_neg (by simp)

theorem decode_urlEncode (s : List UInt8) : decode (SasToken.urlEncode s) = some s := by
  rw [urlEncode_eq]
  exact decode_encode (by decide) s

theorem ampersand_notMem_urlEncode (s : List UInt8) : ampersand ∉ SasToken.urlEncode s := by
  intro hmem
  rw [urlEncode_eq] at hmem
  rcases (encoded_encode (fun b => mem_unreservedBytes) s).mem hmem with hpercent | hkept
  · exact absurd hpercent (by decide)
  · exact absurd hkept (by decide +kernel)

theorem ampersand_notMem_decimal (v : Int) : ampersand ∉ decimal v := by
  intro hmem
  rcases mem_decimal ampersand hmem with hminus | hdigit
  · exact absurd hminus (by decide)
  · exact absurd hdigit (by decide)

theorem wholeToken_eq (sr sig se : List UInt8) :
    wholeToken sr sig se = format ampersand scheme fieldNames [sr, sig, se] := by
  have hsr : ascii "SharedAccessSignature sr=" = scheme ++ ascii "sr=" := rfl
  have hsig : ascii "&sig=" = [ampersand] ++ ascii "sig=" := rfl
  have hse : ascii "&se=" = [ampersand] ++ ascii "se=" := rfl
  rw [wholeToken, hsr, hsig, hse]
  simp only [format, fieldNames, List.zipWith_cons_cons, List.zipWith_nil_left,
    List.intercalate_cons_cons, List.intercalate_singleton, List.append_assoc]

/-- A whole token reads back as its three parts. -/
theorem parse_wholeToken {sr sig se : List UInt8} (hsr : ampersand ∉ sr) (hsig : ampersand ∉ sig)
    (hse : ampersand ∉ se) :
    parse ampersand scheme fieldNames (wholeToken sr sig se) = some [sr, sig, se] := by
  have hnames : ∀ name ∈ fieldNames, ampersand ∉ name := by decide +kernel
  have hvalues : ∀ value ∈ [sr, sig, se], ampersand ∉ value := by
    intro value hvalue
    simp only [List.mem_cons, List.not_mem_nil, or_false] at hvalue
    rcases hvalue with rfl | rfl | rfl
    · exact hsr
    · exact hsig
    · exact hse
  have hlength : [sr, sig, se].length = fieldNames.length := rfl
  rw [wholeToken_eq]
  exact parse_format scheme (by decide) hlength hnames hvalues

theorem accepts_wholeToken_iff (v : Verifier) {sr sig se : List UInt8} (hsr : ampersand ∉ sr)
    (hsig : ampersand ∉ sig) (hse : ampersand ∉ se) (uri : List UInt8) (time : Int) :
    v.Accepts (wholeToken sr sig se) uri time ↔
      decode sr = some uri ∧
        (decode sig).bind v.unbase64 = some (v.hmacSha256 v.key (sr ++ [0x0A] ++ se)) ∧
        ∃ e, expires se = some e ∧ time < e := by
  have hparse := parse_wholeToken hsr hsig hse
  constructor
  · rintro ⟨sr', sig', se', hsplit, haccepts⟩
    have hsame := hparse.symm.trans hsplit
    simp only [Option.some.injEq, List.cons.injEq, and_true] at hsame
    obtain ⟨rfl, rfl, rfl⟩ := hsame
    exact haccepts
  · intro haccepts
    exact ⟨sr, sig, se, hparse, haccepts⟩

end Fields

section Token

variable {crypto : Openssl} {base64 : List UInt8 → List UInt8}
variable {unbase64 : List UInt8 → Option (List UInt8)} {se : Int}
variable {host deviceId b64Key key : List UInt8}

theorem printedToken_of_fits {sr se : List UInt8}
    (fits : sr.length + (signature crypto base64 key sr se).length + se.length ≤ 989) :
    snprintf 1024 (printedToken crypto base64 key sr se) =
      wholeToken sr (signature crypto base64 key sr se) se := by
  have hsigned : snprintf 1024 (sr ++ [0x0A] ++ se) = sr ++ [0x0A] ++ se := by
    apply snprintf_eq_self
    simp only [List.length_append, List.length_singleton]
    omega
  rw [printedToken, hsigned]
  apply snprintf_eq_self
  rw [← signature, length_wholeToken]
  omega

/-- The holder of the key accepts a token for the device it was built for and for no other resource,
and until it expires. -/
theorem accepts_iff {token : List UInt8} (hostSize : host.length ≤ 255)
    (deviceSize : deviceId.length ≤ 127) (decodes : crypto.b64Decode b64Key = some key)
    (encodes : ∀ digest, crypto.b64Encode digest = some (base64 digest))
    (undoes : ∀ digest, unbase64 (base64 digest) = some digest)
    (fits : (resource host deviceId).length +
        (signature crypto base64 key (resource host deviceId) (decimal se)).length +
        (decimal se).length ≤ 989)
    (returned : sasTokenAt crypto se host deviceId b64Key = some token)
    (uri : List UInt8) (time : Int) :
    Verifier.Accepts ⟨key, crypto.hmacSha256, unbase64⟩ token uri time ↔
      uri = host ++ ascii "/devices/" ++ deviceId ∧ 0 ≤ se ∧ time < se := by
  obtain ⟨hhost, hdevice, hkey⟩ := nonempty_of_returned returned
  rw [sasTokenAt_eq se hostSize deviceSize decodes encodes hhost hdevice hkey,
    Option.some.injEq, printedToken_of_fits fits] at returned
  have hwhole := accepts_wholeToken_iff ⟨key, crypto.hmacSha256, unbase64⟩
    (show ampersand ∉ resource host deviceId from ampersand_notMem_urlEncode _)
    (show ampersand ∉ signature crypto base64 key (resource host deviceId) (decimal se) from
      ampersand_notMem_urlEncode _)
    (ampersand_notMem_decimal se) uri time
  rw [← returned, hwhole]
  have huri : decode (resource host deviceId) = some (host ++ ascii "/devices/" ++ deviceId) :=
    decode_urlEncode _
  have hsignature : (decode (signature crypto base64 key (resource host deviceId)
      (decimal se))).bind unbase64 = some (crypto.hmacSha256 key
        (resource host deviceId ++ [0x0A] ++ decimal se)) := by
    rw [signature, decode_urlEncode, Option.bind_some, undoes]
  rw [expires_decimal]
  constructor
  · rintro ⟨hdecode, -, e, he, htime⟩
    rw [huri, Option.some.injEq] at hdecode
    split_ifs at he with hlater
    obtain rfl := Option.some.inj he
    exact ⟨hdecode.symm, hlater, by omega⟩
  · rintro ⟨rfl, hlater, htime⟩
    refine ⟨huri, hsignature, se.toNat, if_pos hlater, ?_⟩
    omega

end Token

/-- The base64 text of one digest, and a stand-in for those of all others. -/
def encodeDigest (digest : List UInt8) : List UInt8 :=
  if digest = shortDigest then shortBase64 else 0x2A :: digest

def decodeDigest (text : List UInt8) : Option (List UInt8) :=
  if text = shortBase64 then some shortDigest else some text.tail

theorem decodeDigest_encodeDigest (digest : List UInt8) :
    decodeDigest (encodeDigest digest) = some digest := by
  unfold encodeDigest
  split_ifs with hshort
  · rw [decodeDigest, if_pos rfl, hshort]
  · have hother : 0x2A :: digest ≠ shortBase64 := by
      intro hsame
      have hfirst := (List.cons.inj hsame).1
      exact absurd hfirst (by decide +kernel)
    rw [decodeDigest, if_neg hother, List.tail_cons]

/-- The token of a charger that expires an hour after it is built. -/
theorem accepts_iff_short :
    ∃ token, sasTokenAt (secretKey (fun _ => shortDigest) encodeDigest) 1700003600 shortHost
        shortDevice keyText = some token ∧
      ∀ uri time, Verifier.Accepts ⟨ascii "secret-key", fun _ _ => shortDigest, decodeDigest⟩
          token uri time ↔
        uri = shortHost ++ ascii "/devices/" ++ shortDevice ∧ (0 : Int) ≤ 1700003600 ∧
          time < 1700003600 := by
  have hhost : shortHost.length ≤ 255 := by decide +kernel
  have hdevice : shortDevice.length ≤ 127 := by decide +kernel
  have returned := sasTokenAt_eq 1700003600 hhost hdevice
    (show (secretKey (fun _ => shortDigest) encodeDigest).b64Decode keyText = _ from rfl)
    (fun _ => rfl) (by decide +kernel) (by decide +kernel) (by decide +kernel)
  refine ⟨_, returned, fun uri time => ?_⟩
  exact accepts_iff hhost hdevice rfl (fun _ => rfl) decodeDigest_encodeDigest
    (by decide +kernel) returned uri time

end Evi7688.Azureiotd.SasVerifier
