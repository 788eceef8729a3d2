/- Evi7688/Azureiotd/Main
   digest: The configuration `azureiotd` reads, and which host names reach the connection. -/

import Evi7688.Azureiotd.Conn
import Evi7688.Azureiotd.SafeStr

set_option autoImplicit false
set_option relaxedAutoImplicit false

namespace Evi7688.Azureiotd.Main

open Evi7688.Library.Bytes
open Evi7688.Library.Numerals (scanInt)
open Conn (EviAuthMode EviAzureCfg)
open SafeStr

/-- `evi_azure_cfg_t` in full. -/
structure Cfg extends EviAzureCfg where
  x509Cert : CArray 256
  x509Key : CArray 256
  x509KeyPass : CArray 128
  sniHost : CArray 256
  caFile : CArray 256

/-- The string options of a configuration, by their full name. -/
abbrev Uci := List UInt8 → Option CString

/-- `uci_get_str` into a buffer that holds `out`. -/
def uciGetStr (n : Nat) (positive : 0 < n) (ctx : Uci) (opt : String) (out : CArray n) : CArray n :=
  match ctx (ascii opt) with
  | none => out
  | some s => CArray.copy n positive (some s)

def uciGetInt (ctx : Uci) (opt : String) (defv : BitVec 32) : BitVec 32 :=
  match ctx (ascii opt) with
  | none => defv
  | some s => if s.bytes = [] then defv else BitVec.ofInt 32 ((scanInt s.bytes).getD 0)

/-- A cleared buffer. -/
def cleared (n : Nat) (positive : 0 < n) : CArray n := ⟨.empty, positive⟩

theorem pos_128 : 0 < 128 := by decide

theorem pos_256 : 0 < 256 := by decide

def zeroCfg : Cfg where
  host := cleared 256 pos_256
  deviceId := cleared 128 pos_128
  auth := .sas
  sasKey := cleared 256 pos_256
  sasTtl := 0
  keepalive := 0
  x509Cert := cleared 256 pos_256
  x509Key := cleared 256 pos_256
  x509KeyPass := cleared 128 pos_128
  sniHost := cleared 256 pos_256
  caFile := cleared 256 pos_256

/-- The normalisation of one host field: what yields no host name is left as it is. -/
def normalized (field : CArray 256) : CArray 256 :=
  if field.bytes ≠ [] then
    let only := safeHostnameOnly 256 pos_256 field.toCString
    if only.bytes ≠ [] then strlcpyCompat 256 pos_256 only.toCString else field
  else field

def authOf (ctx : Uci) : EviAuthMode :=
  let auth := ((ctx (ascii "azureiotd.main.auth")).map fun s => s.bytes.take 15).getD (ascii "sas")
  if auth = ascii "x509" then .x509 else .sas

/-- The fields as `main` fills them in, with a context or without one. -/
def loadCfg : Option Uci → Cfg
  | none => zeroCfg
  | some ctx =>
    { host := normalized (uciGetStr 256 pos_256 ctx "azureiotd.main.host" zeroCfg.host)
      deviceId := uciGetStr 128 pos_128 ctx "azureiotd.main.device_id" zeroCfg.deviceId
      auth := authOf ctx
      sasKey := uciGetStr 256 pos_256 ctx "azureiotd.main.sas_key" zeroCfg.sasKey
      sasTtl := uciGetInt ctx "azureiotd.main.sas_ttl" 3600
      keepalive := uciGetInt ctx "azureiotd.main.keepalive" 60
      x509Cert := uciGetStr 256 pos_256 ctx "azureiotd.main.x509_cert" zeroCfg.x509Cert
      x509Key := uciGetStr 256 pos_256 ctx "azureiotd.main.x509_key" zeroCfg.x509Key
      x509KeyPass := uciGetStr 128 pos_128 ctx "azureiotd.main.x509_key_pass" zeroCfg.x509KeyPass
      sniHost := normalized (uciGetStr 256 pos_256 ctx "azureiotd.main.sni_host" zeroCfg.sniHost)
      caFile := uciGetStr 256 pos_256 ctx "azureiotd.main.ca_file" zeroCfg.caFile }

/-- The configuration handed to `azure_conn_init`; without host or device, `main` returns before. -/
def main (ctx : Option Uci) : Option Cfg :=
  let cfg := loadCfg ctx
  if cfg.host.bytes = [] ∨ cfg.deviceId.bytes = [] then none else some cfg

/-- The connection code sees host names and nothing around them. -/
structure BareNames (cfg : Cfg) : Prop where
  host : cfg.host.bytes ≠ []
  hostPlain : ∀ b ∈ cuts, b ∉ cfg.host.bytes
  sniPlain : ∀ b ∈ cuts, b ∉ cfg.sniHost.bytes

/-- The text of an option as far as its buffer of 256 bytes takes it. -/
def optionText (ctx : Uci) (opt : String) : List UInt8 :=
  ((ctx (ascii opt)).map fun s => s.bytes.take 255).getD []

/-- Behind its scheme, if it has one, a text starts with a character of a host name. -/
def StartsName (text : List UInt8) : Prop := ∃ b rest, afterScheme text = b :: rest ∧ b ∉ cuts

instance (text : List UInt8) : Decidable (StartsName text) :=
  match h : afterScheme text with
  | [] => isFalse fun ⟨_, _, heq, _⟩ => by simp [h] at heq
  | b :: rest =>
    decidable_of_iff (b ∉ cuts) ⟨fun hb => ⟨b, rest, h, hb⟩, fun ⟨_, _, heq, hb⟩ => by
      rw [h] at heq
      exact (List.cons.inj heq).1 ▸ hb⟩

section Normalisation

theorem startsName_iff (text : List UInt8) :
    StartsName text ↔ chopAtFirst cuts (afterScheme text) ≠ [] := by
  rw [ne_eq, chopAtFirst_eq_nil, StartsName]
  cases afterScheme text with
  | nil => simp
  | cons b rest => simp

theorem normalized_bytes (field : CArray 256) :
    (normalized field).bytes =
      if StartsName field.bytes then chopAtFirst cuts (afterScheme field.bytes)
      else field.bytes := by
  have honly : (safeHostnameOnly 256 pos_256 field.toCString).bytes =
      chopAtFirst cuts (afterScheme field.bytes) := by
    have hfits := field.fits
    exact hostnameOnly_eq (by omega) hfits
  have hcopy : strlcpyCompat 256 pos_256 (safeHostnameOnly 256 pos_256 field.toCString).toCString =
      safeHostnameOnly 256 pos_256 field.toCString := CArray.copy_toCString pos_256 _
  simp only [normalized, honly, hcopy, startsName_iff]
  by_cases hfield : field.bytes = []
  · have hempty : chopAtFirst cuts (afterScheme []) = [] := rfl
    simp [hfield, hempty]
  · by_cases hname : chopAtFirst cuts (afterScheme field.bytes) = []
    · simp [hfield, hname]
    · simp [hfield, hname, honly]

theorem normalized_plain_iff (field : CArray 256) :
    (∀ b ∈ cuts, b ∉ (normalized field).bytes) ↔ field.bytes = [] ∨ StartsName field.bytes := by
  rw [normalized_bytes]
  split_ifs with hname
  · exact iff_of_true notMem_chopAtFirst (Or.inr hname)
  · have hnone : chopAtFirst cuts (afterScheme field.bytes) = [] :=
      not_not.mp fun hne => hname ((startsName_iff _).mpr hne)
    constructor
    · intro hplain
      by_contra hfield
      obtain ⟨b, hcut, hmem⟩ := exists_cut (fun h => hfield (Or.inl h)) hnone
      exact hplain b hcut hmem
    · intro h
      rw [h.resolve_right hname]
      exact fun b _ => List.not_mem_nil

theorem uciGetStr_bytes (ctx : Uci) (opt : String) :
    (uciGetStr 256 pos_256 ctx opt (cleared 256 pos_256)).bytes = optionText ctx opt := by
  unfold uciGetStr optionText
  cases ctx (ascii opt) <;> rfl

end Normalisation

theorem main_eq_some {ctx : Option Uci} {cfg : Cfg} (reached : main ctx = some cfg) :
    cfg = loadCfg ctx ∧ (loadCfg ctx).host.bytes ≠ [] := by
  simp only [main] at reached
  split_ifs at reached with hmissing
  exact ⟨(Option.some.inj reached).symm, fun hhost => hmissing (Or.inl hhost)⟩

/-- The configuration that reaches the connection has bare host names exactly if the host and, where
it is given, the name for the server certificate start with one behind their scheme. -/
theorem bareNames_iff (ctx : Uci) {cfg : Cfg} (reached : main (some ctx) = some cfg) :
    BareNames cfg ↔
      StartsName (optionText ctx "azureiotd.main.host") ∧
        (optionText ctx "azureiotd.main.sni_host" = [] ∨
          StartsName (optionText ctx "azureiotd.main.sni_host")) := by
  obtain ⟨rfl, hhost⟩ := main_eq_some reached
  have hhostPlain := normalized_plain_iff
    (uciGetStr 256 pos_256 ctx "azureiotd.main.host" (cleared 256 pos_256))
  have hsniPlain := normalized_plain_iff
    (uciGetStr 256 pos_256 ctx "azureiotd.main.sni_host" (cleared 256 pos_256))
  rw [uciGetStr_bytes] at hhostPlain hsniPlain
  have hgiven : optionText ctx "azureiotd.main.host" ≠ [] := by
    intro hempty
    apply hhost
    have hbytes := normalized_bytes
      (uciGetStr 256 pos_256 ctx "azureiotd.main.host" (cleared 256 pos_256))
    rw [uciGetStr_bytes, hempty] at hbytes
    exact hbytes
  constructor
  · intro h
    exact ⟨(hhostPlain.mp h.hostPlain).resolve_left hgiven, hsniPlain.mp h.sniPlain⟩
  · rintro ⟨hname, hsni⟩
    exact ⟨hhost, hhostPlain.mpr (Or.inr hname), hsniPlain.mpr hsni⟩

/-- A configuration with one text for the host and one for the device. -/
def hostAndDevice (host : CString) : Uci := fun opt =>
  if opt = ascii "azureiotd.main.host" then some host
  else if opt = ascii "azureiotd.main.device_id" then some (literal "myDevice")
  else none

theorem bareNames_of_url :
    (main (some (hostAndDevice (literal "mqtts://hub.net:8883/x")))).map (fun cfg => cfg.host.bytes) =
      some (ascii "hub.net") ∧
      BareNames (loadCfg (some (hostAndDevice (literal "mqtts://hub.net:8883/x")))) := by
  have reached : main (some (hostAndDevice (literal "mqtts://hub.net:8883/x"))) =
      some (loadCfg (some (hostAndDevice (literal "mqtts://hub.net:8883/x")))) := rfl
  refine ⟨by decide +kernel, (bareNames_iff _ reached).mpr ⟨by decide +kernel, Or.inl rfl⟩⟩

/-- A text that has no host name reaches the connection as it is. -/
theorem not_always_bareNames :
    ¬ ∀ (ctx : Option Uci) (cfg : Cfg), main ctx = some cfg → BareNames cfg := by
  intro h
  have hplain := (h (some (hostAndDevice (literal "https://"))) _ rfl).hostPlain 0x3A (by decide)
  revert hplain
  decide +kernel

end Evi7688.Azureiotd.Main
