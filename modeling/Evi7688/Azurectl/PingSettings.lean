/- Evi7688/Azurectl/PingSettings
   digest: The shell commands behind `uci_set`, and which values they store as they are. -/

import Evi7688.Azurectl.SetCommand
import Evi7688.Library.ShellWords

set_option autoImplicit false
set_option relaxedAutoImplicit false

namespace Evi7688.Azurectl.PingSettings

open Evi7688.Library.Bytes (ascii snprintf)
open Evi7688.Library.Numerals
open Evi7688.Library.ShellWords
open Uci
open Main (dongleportKey)
open SetCommand

/-- The text `uci_set` hands to `system`. -/
def uciSetLine (key val : List UInt8) : List UInt8 :=
  snprintf 512 (ascii "uci set " ++ key ++ ascii "=" ++ val)

def uciCommitLine (pkg : List UInt8) : List UInt8 := snprintf 256 (ascii "uci commit " ++ pkg)

def commandLine : Effect → Option (List UInt8)
  | .uciSet key val _ => some (uciSetLine key val)
  | .uciCommit pkg _ => some (uciCommitLine pkg)
  | _ => none

/-- The command runs `uci` with the two words it is meant to have. -/
def SetsExactly (matching : Word → List (List UInt8)) (key val : List UInt8) : Prop :=
  commandWords matching (uciSetLine key val) =
    some [ascii "uci", ascii "set", key ++ ascii "=" ++ val]

theorem commandLines_setPingSettings (w : World) (val : List UInt8) :
    (mainSet w (ascii "setPingSettings" ++ comma :: val)).filterMap commandLine =
      [uciSetLine pingsettingsKey val, ascii "uci commit system"] := by
  rw [mainSet_pair w val (by decide), setPair, if_neg (by decide), if_pos rfl]
  rfl

/-- An option of the first `system` section, whose name has nothing special in it. -/
structure SystemOption (key : List UInt8) : Prop where
  section₀ : ascii "system.@system[0]" <+: key
  simple : key.all isSimple = true
  room : key.length ≤ 500

section Lines

variable {key val : List UInt8} {matching : Word → List (List UInt8)}

theorem uciSetLine_eq (hroom : key.length ≤ 500) :
    uciSetLine key val = ascii "uci set " ++ (key ++ ascii "=" ++ val.take (502 - key.length)) := by
  have hlength : (ascii "uci set " ++ key ++ ascii "=").length = 9 + key.length := by
    have hset : (ascii "uci set ").length = 8 := rfl
    have hequals : (ascii "=").length = 1 := rfl
    rw [List.length_append, List.length_append, hset, hequals]
    omega
  have htake : (ascii "uci set " ++ key ++ ascii "=").take 511 =
      ascii "uci set " ++ key ++ ascii "=" := List.take_of_length_le (by omega)
  rw [uciSetLine, snprintf, List.take_append, htake, hlength]
  simp only [List.append_assoc]
  congr 4
  omega

theorem lex_uciSetLine {v : List UInt8} (hkey : SystemOption key) :
    lex start (ascii "uci set " ++ (key ++ ascii "=" ++ v)) =
      (lex ⟨.bare, some (unquoted (key ++ ascii "="))⟩ v).map fun tokens =>
        .word (unquoted (ascii "uci")) :: .word (unquoted (ascii "set")) :: tokens := by
  have huci := lex_first_word (ascii "set " ++ (key ++ ascii "=" ++ v))
    (b := 0x75) (p := ascii "ci") (by decide) (by decide) (by decide)
  have hset := lex_first_word (key ++ ascii "=" ++ v) (b := 0x73) (p := ascii "et") (by decide)
    (by decide) (by decide)
  have hthird : lex start (key ++ ascii "=" ++ v) =
      lex ⟨.bare, some (unquoted (key ++ ascii "="))⟩ v := by
    obtain ⟨more, hmore⟩ := hkey.section₀
    have hrest : key = 0x73 :: (ascii "ystem.@system[0]" ++ more) := by
      rw [← hmore]
      rfl
    have hsimple := hkey.simple
    rw [hrest, List.all_cons, Bool.and_eq_true] at hsimple
    rw [hrest, List.cons_append, List.cons_append, lex_start _ (by decide) (by decide) (by decide),
      lex_word]
    · rfl
    · rw [List.all_append, hsimple.2]
      decide
  have hline : ascii "uci set " ++ (key ++ ascii "=" ++ v) =
      0x75 :: ascii "ci" ++ 0x20 :: (ascii "set " ++ (key ++ ascii "=" ++ v)) := rfl
  have hsecond : ascii "set " ++ (key ++ ascii "=" ++ v) =
      0x73 :: ascii "et" ++ 0x20 :: (key ++ ascii "=" ++ v) := rfl
  rw [hline, huci, hsecond, hset, hthird, Option.map_map]
  rfl

theorem commandWords_uciSetLine (hkey : SystemOption key) :
    commandWords matching (uciSetLine key val) =
      ((lex ⟨.bare, some (unquoted (key ++ ascii "="))⟩ (val.take (502 - key.length))).bind
        simpleCommand).map fun ws =>
          ascii "uci" :: ascii "set" :: ws.flatMap (expandPaths matching) := by
  rw [commandWords, uciSetLine_eq hkey.room, lex_uciSetLine hkey]
  have huci : expandPaths matching (unquoted (ascii "uci")) = [ascii "uci"] :=
    expandPaths_unquoted (by decide)
  have hset : expandPaths matching (unquoted (ascii "set")) = [ascii "set"] :=
    expandPaths_unquoted (by decide)
  cases lex ⟨.bare, some (unquoted (key ++ ascii "="))⟩ (val.take (502 - key.length)) with
  | none => rfl
  | some tokens =>
    simp only [Option.map_some, Option.bind_some, simpleCommand, Option.map_map]
    simp [huci, hset, Function.comp_def]

theorem isPattern_key {more : Word} (hkey : SystemOption key) :
    isPattern (unquoted (key ++ ascii "=") ++ more) = true := by
  obtain ⟨name, rfl⟩ := hkey.section₀
  simp [isPattern, unquoted, ascii]

theorem notMem_matching {more : Word} {after : List UInt8} (hkey : SystemOption key)
    (sound : MatchesBracket matching) :
    key ++ after ∉ matching (unquoted (key ++ ascii "=") ++ more) := by
  obtain ⟨name, rfl⟩ := hkey.section₀
  intro hmem
  have hword : unquoted (ascii "system.@system[0]" ++ name ++ ascii "=") ++ more =
      unquoted (ascii "system.@system") ++ unquoted [0x5B, 0x30, 0x5D] ++
        (unquoted (name ++ ascii "=") ++ more) := by
    simp [unquoted, ascii]
  rw [hword] at hmem
  have hprefix := sound (ascii "system.@system") 0x30 _ _ (by decide) (by decide) hmem
  obtain ⟨rest, hrest⟩ := hprefix
  have hdigit := congrArg (fun l : List UInt8 => l[14]?) hrest
  simp [ascii] at hdigit

/-- A value reaches the store as it is exactly if it fits the buffer, stands for itself in a shell
word, and the word it makes matches no name of a file. -/
theorem setsExactly_iff_of_key (hkey : SystemOption key) (sound : MatchesBracket matching) :
    SetsExactly matching key val ↔
      plain val = true ∧ val.length ≤ 502 - key.length ∧
        matching (unquoted (key ++ ascii "=" ++ val)) = [] := by
  rw [SetsExactly, commandWords_uciSetLine hkey]
  constructor
  · intro h
    obtain ⟨ws, hws, hwords⟩ := Option.map_eq_some_iff.mp h
    obtain ⟨tokens, hlex, hsimple⟩ := Option.bind_eq_some_iff.mp hws
    have hthird : ws.flatMap (expandPaths matching) = [key ++ ascii "=" ++ val] := by
      simpa using hwords
    obtain ⟨w, rfl, hexpand⟩ := exists_word_of_flatMap hthird
    obtain rfl := eq_singleton_of_simpleCommand hsimple
    obtain ⟨w', more, htokens, rest, hrest⟩ := prefix_of_lex rfl (by simp) hlex
    obtain ⟨hw, -⟩ := List.cons.inj htokens
    obtain rfl : w = w' := Token.word.inj hw
    rcases expandPaths_eq_singleton hexpand with ⟨hnone, htext⟩ | hmem
    · have hlength : w.length = (key ++ ascii "=").length + val.length := by
        rw [← List.length_append, ← htext, text, List.length_map]
      have htaken := List.length_take_le' (502 - key.length) val
      have hkept : (unquoted (key ++ ascii "=")).length + (val.take (502 - key.length)).length ≤
          textLength [.word w] := by
        rw [length_unquoted, textLength_word]
        omega
      obtain ⟨hplain, hword⟩ := lex_eq_of_textLength hlex hkept
      obtain rfl : w = unquoted (key ++ ascii "=" ++ val.take (502 - key.length)) := by
        rw [unquoted_append]
        exact Token.word.inj (List.cons.inj hword).1
      rw [text_unquoted] at htext
      have hwhole : val.take (502 - key.length) = val := List.append_cancel_left htext
      rw [hwhole] at hplain hnone
      refine ⟨hplain, List.take_eq_self_iff val |>.mp hwhole, hnone ?_⟩
      rw [unquoted_append]
      exact isPattern_key hkey
    · rw [← hrest, List.append_assoc] at hmem
      exact absurd hmem (notMem_matching hkey sound)
  · rintro ⟨hplain, hroom, hnone⟩
    rw [List.take_of_length_le hroom, lex_of_plain hplain, ← unquoted_append]
    simp only [Option.bind_some, simpleCommand, Option.map_some, List.flatMap_cons,
      List.flatMap_nil, expandPaths_of_nil hnone, text_unquoted, List.append_nil]

end Lines

theorem systemOption_pingsettings : SystemOption pingsettingsKey :=
  ⟨⟨ascii ".pingsettings", rfl⟩, by decide, by decide⟩

/-- `setPingSettings` stores exactly the values of at most 472 bytes that stand for themselves in
a shell word, where no file has a name that the word matches. -/
theorem setsExactly_iff (matching : Word → List (List UInt8)) (sound : MatchesBracket matching)
    (val : List UInt8) :
    SetsExactly matching pingsettingsKey val ↔
      plain val = true ∧ val.length ≤ 472 ∧
        matching (unquoted (pingsettingsKey ++ ascii "=" ++ val)) = [] :=
  setsExactly_iff_of_key systemOption_pingsettings sound

def noFiles : Word → List (List UInt8) := fun _ => []

theorem matchesBracket_noFiles : MatchesBracket noFiles := by
  intro _ _ _ _ _ _ hmem
  cases hmem

theorem setsExactly_address : SetsExactly noFiles pingsettingsKey (ascii "10,8.8.8.8") :=
  (setsExactly_iff noFiles matchesBracket_noFiles _).mpr ⟨by decide, by decide, rfl⟩

/-- A value can bring a command of its own. -/
theorem not_always_setsExactly :
    ¬ ∀ (matching : Word → List (List UInt8)) (val : List UInt8), MatchesBracket matching →
      SetsExactly matching pingsettingsKey val := by
  intro h
  have hwords := h noFiles (ascii "1;reboot") matchesBracket_noFiles
  revert hwords
  unfold SetsExactly
  decide +kernel

theorem setsExactly_intText {matching : Word → List (List UInt8)} (sound : MatchesBracket matching)
    {v : Int} (lower : -2 ^ 31 ≤ v) (upper : v < 2 ^ 31)
    (hnone : matching (unquoted (dongleportKey ++ ascii "=" ++ intText v)) = []) :
    SetsExactly matching dongleportKey (intText v) := by
  have hoption : SystemOption dongleportKey := ⟨⟨ascii ".dongleport", rfl⟩, by decide, by decide⟩
  have hlength := length_decimal_le lower upper
  have htext : intText v = decimal v := List.take_of_length_le (by omega)
  have hsimple : ∀ b ∈ decimal v, isSimple b = true := by
    intro b hb
    have table : ∀ n : Fin 256, UInt8.ofNat n.val = 0x2D ∨ isDigit (UInt8.ofNat n.val) = true →
        isSimple (UInt8.ofNat n.val) = true := by
      decide +kernel
    have hbyte := table ⟨b.toNat, b.toNat_lt⟩
    rw [UInt8.ofNat_toNat] at hbyte
    exact hbyte (mem_decimal b hb)
  have hroom : (intText v).length ≤ 502 - dongleportKey.length := by
    have hkey : dongleportKey.length = 28 := rfl
    rw [htext, hkey]
    omega
  refine (setsExactly_iff_of_key hoption sound).mpr ⟨?_, hroom, hnone⟩
  rw [htext]
  exact plain_of_isSimple hsimple

end Evi7688.Azurectl.PingSettings
