/- Evi7688/Azureiotd/SasToken
   digest: Percent-encoding and the shared access signature token. -/

import Evi7688.Library.Numerals

set_option autoImplicit false
set_option relaxedAutoImplicit false

namespace Evi7688.Azureiotd.SasToken

open Evi7688.Library.Bytes (ascii snprintf)
open Evi7688.Library.Numerals (decimal hexDigit)

structure Openssl where
  b64Decode : List UInt8 → Option (List UInt8)
  hmacSha256 : List UInt8 → List UInt8 → List UInt8
  b64Encode : List UInt8 → Option (List UInt8)

def unreserved (p : UInt8) : Bool :=
  (0x41 ≤ p && p ≤ 0x5A) || (0x61 ≤ p && p ≤ 0x7A) || (0x30 ≤ p && p ≤ 0x39) ||
    p == 0x2D || p == 0x5F || p == 0x2E || p == 0x7E

/-- The first pass of `url_encode`: the number of bytes it allocates, less the terminator. -/
def urlEncodeCount (s : List UInt8) : Nat :=
  s.foldl (fun n p => if unreserved p then n + 1 else n + 3) 0

/-- The second pass of `url_encode`: the bytes it writes, less the terminator. -/
def urlEncode (s : List UInt8) : List UInt8 :=
  s.flatMap fun p => if unreserved p then [p] else [0x25, hexDigit (p >>> 4), hexDigit (p &&& 0xF)]

theorem length_urlEncode_cons (p : UInt8) (s : List UInt8) :
    (urlEncode (p :: s)).length = (if unreserved p then 1 else 3) + (urlEncode s).length := by
  rw [urlEncode, List.flatMap_cons, List.length_append]
  split
  · rfl
  · rfl

theorem length_urlEncode (s : List UInt8) : (urlEncode s).length = urlEncodeCount s := by
  have hfrom : ∀ n, s.foldl (fun n p => if unreserved p then n + 1 else n + 3) n =
      n + (urlEncode s).length := by
    induction s with
    | nil => exact fun _ => rfl
    | cons p s ih =>
      intro n
      rw [List.foldl_cons, ih, length_urlEncode_cons]
      split <;> omega
  rw [urlEncodeCount, hfrom, Nat.zero_add]

/-- `azure_sas_build_token` from the `long` on that holds the expiry. -/
def sasTokenAt (crypto : Openssl) (se : Int) (host deviceId b64Key : List UInt8) :
    Option (List UInt8) :=
  if host = [] ∨ deviceId = [] ∨ b64Key = [] then none
  else
    let sr := urlEncode (snprintf 512 (host ++ ascii "/devices/" ++ deviceId))
    let stringToSign := snprintf 1024 (sr ++ [0x0A] ++ decimal se)
    match crypto.b64Decode b64Key with
    | none => none
    | some key =>
      match crypto.b64Encode (crypto.hmacSha256 key stringToSign) with
      | none => none
      | some b64sig =>
        some (snprintf 1024 (ascii "SharedAccessSignature sr=" ++ sr ++ ascii "&sig=" ++
          urlEncode b64sig ++ ascii "&se=" ++ decimal se))

/-- With a clock and a lifetime whose sum a `long` holds. -/
def azureSasBuildToken (crypto : Openssl) (now : Int) (host deviceId b64Key : List UInt8)
    (ttlSecs : Int) : Option (List UInt8) :=
  sasTokenAt crypto (now + (if ttlSecs > 0 then ttlSecs else 3600)) host deviceId b64Key

end Evi7688.Azureiotd.SasToken
