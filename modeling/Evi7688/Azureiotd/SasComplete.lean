/- Evi7688/Azureiotd/SasComplete
   digest: When the token and the string that is signed for it fit their buffers. -/

import Evi7688.Azureiotd.SasToken

set_option autoImplicit false
set_option relaxedAutoImplicit false

namespace Evi7688.Azureiotd.SasComplete

open Evi7688.Library.Bytes (ascii snprintf snprintf_eq_self)
open Evi7688.Library.Numerals (decimal)
open SasToken

def resource (host deviceId : List UInt8) : List UInt8 :=
  urlEncode (host ++ ascii "/devices/" ++ deviceId)

def expiry (now ttlSecs : Int) : List UInt8 :=
  decimal (now + (if ttlSecs > 0 then ttlSecs else 3600))

/-- The signature over the resource, a newline and the expiry, nothing of them cut off. -/
def signature (crypto : Openssl) (base64 : List UInt8 → List UInt8) (key sr se : List UInt8) :
    List UInt8 :=
  urlEncode (base64 (crypto.hmacSha256 key (sr ++ [0x0A] ++ se)))

def wholeToken (sr sig se : List UInt8) : List UInt8 :=
  ascii "SharedAccessSignature sr=" ++ sr ++ ascii "&sig=" ++ sig ++ ascii "&se=" ++ se

/-- The token that is printed, with a signature over what fits of the string to sign. -/
def printedToken (crypto : Openssl) (base64 : List UInt8 → List UInt8) (key sr se : List UInt8) :
    List UInt8 :=
  wholeToken sr (urlEncode (base64 (crypto.hmacSha256 key (snprintf 1024 (sr ++ [0x0A] ++ se))))) se

theorem length_wholeToken (sr sig se : List UInt8) :
    (wholeToken sr sig se).length = sr.length + sig.length + se.length + 34 := by
  simp only [wholeToken, List.length_append,
    show (ascii "SharedAccessSignature sr=").length = 25 from rfl,
    show (ascii "&sig=").length = 5 from rfl, show (ascii "&se=").length = 4 from rfl]
  omega

theorem length_snprintf_le (size : Nat) (text : List UInt8) :
    (snprintf size text).length ≤ size - 1 :=
  List.length_take_le _ _

section Token

variable {crypto : Openssl} {base64 : List UInt8 → List UInt8} {now ttlSecs : Int}
variable {host deviceId b64Key key : List UInt8}

theorem snprintf_resource (hostSize : host.length ≤ 255) (deviceSize : deviceId.length ≤ 127) :
    urlEncode (snprintf 512 (host ++ ascii "/devices/" ++ deviceId)) =
      resource host deviceId := by
  rw [resource, snprintf_eq_self]
  simp only [List.length_append, show (ascii "/devices/").length = 9 from rfl]
  omega

theorem sasTokenAt_eq (se : Int) (hostSize : host.length ≤ 255) (deviceSize : deviceId.length ≤ 127)
    (decodes : crypto.b64Decode b64Key = some key)
    (encodes : ∀ digest, crypto.b64Encode digest = some (base64 digest)) (hostNonempty : host ≠ [])
    (deviceNonempty : deviceId ≠ []) (keyNonempty : b64Key ≠ []) :
    sasTokenAt crypto se host deviceId b64Key =
      some (snprintf 1024
        (printedToken crypto base64 key (resource host deviceId) (decimal se))) := by
  have hgiven : ¬ (host = [] ∨ deviceId = [] ∨ b64Key = []) := by
    simp [hostNonempty, deviceNonempty, keyNonempty]
  simp only [sasTokenAt, if_neg hgiven, decodes, encodes, snprintf_resource hostSize deviceSize]
  rfl

theorem azureSasBuildToken_eq (now ttlSecs : Int) (hostSize : host.length ≤ 255)
    (deviceSize : deviceId.length ≤ 127) (decodes : crypto.b64Decode b64Key = some key)
    (encodes : ∀ digest, crypto.b64Encode digest = some (base64 digest)) (hostNonempty : host ≠ [])
    (deviceNonempty : deviceId ≠ []) (keyNonempty : b64Key ≠ []) :
    azureSasBuildToken crypto now host deviceId b64Key ttlSecs =
      some (snprintf 1024
        (printedToken crypto base64 key (resource host deviceId) (expiry now ttlSecs))) :=
  sasTokenAt_eq _ hostSize deviceSize decodes encodes hostNonempty deviceNonempty keyNonempty

theorem nonempty_of_returned {se : Int} {token : List UInt8}
    (returned : sasTokenAt crypto se host deviceId b64Key = some token) :
    host ≠ [] ∧ deviceId ≠ [] ∧ b64Key ≠ [] := by
  by_contra hmissing
  have hgiven : host = [] ∨ deviceId = [] ∨ b64Key = [] := by tauto
  simp only [sasTokenAt, if_pos hgiven] at returned
  cases returned

/-- A returned token is complete, and so is what it signs, exactly if it fits 1023 bytes. -/
theorem token_complete_iff {token : List UInt8} (hostSize : host.length ≤ 255)
    (deviceSize : deviceId.length ≤ 127) (decodes : crypto.b64Decode b64Key = some key)
    (encodes : ∀ digest, crypto.b64Encode digest = some (base64 digest))
    (returned : azureSasBuildToken crypto now host deviceId b64Key ttlSecs = some token) :
    token = wholeToken (resource host deviceId)
        (signature crypto base64 key (resource host deviceId) (expiry now ttlSecs))
        (expiry now ttlSecs) ↔
      (resource host deviceId).length +
        (signature crypto base64 key (resource host deviceId) (expiry now ttlSecs)).length +
        (expiry now ttlSecs).length ≤ 989 := by
  obtain ⟨hhost, hdevice, hkey⟩ := nonempty_of_returned returned
  rw [azureSasBuildToken_eq now ttlSecs hostSize deviceSize decodes encodes hhost hdevice hkey,
    Option.some.injEq] at returned
  have hlength := length_wholeToken (resource host deviceId)
    (signature crypto base64 key (resource host deviceId) (expiry now ttlSecs))
    (expiry now ttlSecs)
  constructor
  · intro hwhole
    have hcut := length_snprintf_le 1024
      (printedToken crypto base64 key (resource host deviceId) (expiry now ttlSecs))
    rw [returned, hwhole, hlength] at hcut
    omega
  · intro hfits
    have hsigned : snprintf 1024 (resource host deviceId ++ [0x0A] ++ expiry now ttlSecs) =
        resource host deviceId ++ [0x0A] ++ expiry now ttlSecs := by
      apply snprintf_eq_self
      simp only [List.length_append, List.length_singleton]
      omega
    rw [printedToken, hsigned] at returned
    rw [← returned]
    apply snprintf_eq_self
    rw [← signature, hlength]
    omega

end Token

/-- The services with the key `secret-key`, given the digests and their base64 text. -/
def secretKey (digest encoded : List UInt8 → List UInt8) : Openssl where
  b64Decode _ := some (ascii "secret-key")
  hmacSha256 _ message := digest message
  b64Encode bytes := some (encoded bytes)

def keyText : List UInt8 := ascii "c2VjcmV0LWtleQ=="

def shortHost : List UInt8 := ascii "myhub.azure-devices.net"

def shortDevice : List UInt8 := ascii "charger-1"

def shortDigest : List UInt8 :=
  [114, 141, 147, 222, 18, 203, 92, 38, 172, 52, 68, 57, 210, 8, 110, 164, 89, 94, 126, 43, 58, 156,
    194, 251, 75, 100, 120, 6, 75, 95, 202, 34]

def shortBase64 : List UInt8 := ascii "co2T3hLLXCasNEQ50ghupFlefis6nML7S2R4BktfyiI="

theorem short_token_complete :
    ∃ token, azureSasBuildToken (secretKey (fun _ => shortDigest) fun _ => shortBase64) 1700000000
        shortHost shortDevice keyText 3600 = some token ∧
      token = wholeToken (resource shortHost shortDevice)
        (signature (secretKey (fun _ => shortDigest) fun _ => shortBase64) (fun _ => shortBase64)
          (ascii "secret-key") (resource shortHost shortDevice) (expiry 1700000000 3600))
        (expiry 1700000000 3600) := by
  have hhost : shortHost.length ≤ 255 := by decide +kernel
  have hdevice : shortDevice.length ≤ 127 := by decide +kernel
  have returned := azureSasBuildToken_eq 1700000000 3600 hhost hdevice
    (show (secretKey (fun _ => shortDigest) fun _ => shortBase64).b64Decode keyText = _ from rfl)
    (fun _ => rfl) (by decide +kernel) (by decide +kernel) (by decide +kernel)
  refine ⟨_, returned, ?_⟩
  apply (token_complete_iff hhost hdevice rfl (fun _ => rfl) returned).mpr
  decide +kernel

/-- 127 times `é` in UTF-8. -/
def longHost : List UInt8 := (List.replicate 127 [0xC3, 0xA9]).flatten

def longDevice : List UInt8 := List.replicate 127 0x40

def cutDigest : List UInt8 :=
  [45, 153, 130, 187, 1, 124, 105, 45, 78, 129, 135, 92, 166, 126, 118, 248, 164, 105, 133, 73, 194,
    132, 57, 177, 100, 56, 61, 94, 125, 252, 79, 123]

def longDigest : List UInt8 :=
  [217, 245, 255, 8, 60, 74, 209, 185, 27, 160, 139, 48, 229, 241, 162, 232, 213, 240, 19, 209, 96,
    116, 23, 163, 118, 228, 104, 81, 54, 19, 30, 187]

def longCrypto : Openssl :=
  secretKey (fun message => if message.length = 1023 then cutDigest else longDigest)
    fun digest => if digest = cutDigest then ascii "LZmCuwF8aS1OgYdcpn52+KRphUnChDmxZDg9Xn38T3s="
      else ascii "2fX/CDxK0bkboIsw5fGi6NXwE9FgdBejduRoUTYTHrs="

def longBase64 (digest : List UInt8) : List UInt8 := (longCrypto.b64Encode digest).getD []

theorem long_token_cut :
    ∃ token, azureSasBuildToken longCrypto 1700000000 longHost longDevice keyText 3600 =
        some token ∧
      token ≠ wholeToken (resource longHost longDevice)
        (signature longCrypto longBase64 (ascii "secret-key") (resource longHost longDevice)
          (expiry 1700000000 3600)) (expiry 1700000000 3600) := by
  have hhost : longHost.length ≤ 255 := by decide +kernel
  have hdevice : longDevice.length ≤ 127 := by decide +kernel
  have encodes : ∀ digest, longCrypto.b64Encode digest = some (longBase64 digest) := fun _ => rfl
  have returned := azureSasBuildToken_eq 1700000000 3600 hhost hdevice
    (show longCrypto.b64Decode keyText = some (ascii "secret-key") from rfl) encodes
    (by decide +kernel) (by decide +kernel) (by decide +kernel)
  refine ⟨_, returned, ?_⟩
  intro hwhole
  have hlong : 1023 < (resource longHost longDevice).length := by decide +kernel
  have hcut := congrArg List.length hwhole
  rw [length_wholeToken] at hcut
  have hroom := length_snprintf_le 1024 (printedToken longCrypto longBase64 (ascii "secret-key")
    (resource longHost longDevice) (expiry 1700000000 3600))
  omega

end Evi7688.Azureiotd.SasComplete
