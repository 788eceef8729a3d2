/- Evi7688/Lcdsvc/Service
   digest: The line protocol of the LCD daemon: its commands, its line buffer and one connection. -/

import Evi7688.Lcdsvc.LcdHw
import Evi7688.Library.Delimited
import Evi7688.Library.Pieces

set_option autoImplicit false
set_option relaxedAutoImplicit false

namespace Evi7688.Lcdsvc.Service

open Evi7688.Library.Bytes (ascii newline)
open Evi7688.Library.Numerals (scanHex)
open Evi7688.Library.Delimited
open Evi7688.Library.Pieces (Delivers)
open LcdHw

/-- The commands of `proto.h`, with their arguments converted. -/
inductive Command
  | init
  | clear
  | home
  | instr (v : UInt8)
  | put (text : List UInt8)
  | ddram (addr : UInt8)
  deriving DecidableEq

def okReply : List UInt8 := ascii "OK\n"

def badHexReply : List UInt8 := ascii "ERR badhex\n"

def unknownReply : List UInt8 := ascii "ERR unknown\n"

/-- `parse_hex`: the low byte of the number, or no number at all. -/
def parseHex (s : List UInt8) : Option UInt8 := (scanHex s).map UInt8.ofNat

/-- The prefix tests of `handle_client`, in their order: the command of a line, or the reply of a
line that names none. -/
def dispatch (line : List UInt8) : Except (List UInt8) Command :=
  if ascii "INIT" <+: line then .ok .init
  else if ascii "CLEAR" <+: line then .ok .clear
  else if ascii "HOME" <+: line then .ok .home
  else if ascii "INSTR " <+: line then
    match parseHex (line.drop 6) with
    | none => .error badHexReply
    | some v => .ok (.instr v)
  else if ascii "PUT " <+: line then .ok (.put (line.drop 4))
  else if ascii "DDRAM " <+: line then
    match parseHex (line.drop 6) with
    | none => .error badHexReply
    | some v => .ok (.ddram v)
  else .error unknownReply

def runCommand (env : SysfsEnv) (c : Command) (h : Host) : Host :=
  match c with
  | .init => (lcdHwInit env (loadPinsFromUci env h)).2
  | .clear => (lcdClear env h).2
  | .home => (lcdHome env h).2
  | .instr v => (lcdWriteInstr env v h).2
  | .put text => (lcdWriteText env text h).2
  | .ddram addr => (lcdSetDdram env addr h).2

/-- The daemon during one connection: its GPIO side, the replies sent and the commands executed. -/
structure Session where
  host : Host
  replies : List (List UInt8)
  executed : List Command

def handleLine (env : SysfsEnv) (s : Session) (line : List UInt8) : Session :=
  match dispatch line with
  | .error reply => { s with replies := s.replies ++ [reply] }
  | .ok c => ⟨runCommand env c s.host, s.replies ++ [okReply], s.executed ++ [c]⟩

/-- `strchr` on a terminated string: what stands before the first `c`, and what after it. -/
def strchr (c : UInt8) : List UInt8 → Option (List UInt8 × List UInt8)
  | [] => none
  | b :: bs =>
    if b = c then some ([], bs)
    else if b = 0 then none
    else (strchr c bs).map fun found => (b :: found.1, found.2)

/-- The inner loop, from the pointer `p` into the buffer; `fuel` bounds its rounds. -/
def bufferLoop (env : SysfsEnv) : Nat → List UInt8 → Session → Session
  | 0, _, s => s
  | fuel + 1, p, s =>
    if p.headD 0 = 0 then s
    else
      match strchr newline p with
      | none => s
      | some (line, rest) => bufferLoop env fuel rest (handleLine env s line)

/-- `handle_client`: every successful `recv` fills the line buffer from its start. -/
def handleClient (env : SysfsEnv) (pieces : List (List UInt8)) (s : Session) : Session :=
  pieces.foldl (fun s piece => bufferLoop env piece.length piece s) s

/-- What successive calls `recv(cfd, line, 511, 0)` may return for a stream. -/
structure Reads (pieces : List (List UInt8)) (stream : List UInt8) : Prop where
  delivers : Delivers pieces stream
  bounded : ∀ p ∈ pieces, p.length ≤ 511

/-- The lines found in one buffer: those of the part before the first NUL. -/
def bufferLines (p : List UInt8) : List (List UInt8) := records newline (p.takeWhile (· != 0))

def dispatched (pieces : List (List UInt8)) : List (List UInt8) := pieces.flatMap bufferLines

def named (line : List UInt8) : Option Command := (dispatch line).toOption

theorem strchr_eq_none {c : UInt8} {p : List UInt8} (h : c ∉ p.takeWhile (· != 0)) :
    strchr c p = none ∨ c = 0 := by
  induction p with
  | nil => exact Or.inl rfl
  | cons b bs ih =>
    by_cases hc : c = 0
    · exact Or.inr hc
    · left
      by_cases hb : b = 0
      · subst hb
        simp [strchr, Ne.symm hc]
      · simp only [List.takeWhile_cons, bne_iff_ne, ne_eq, hb, not_false_eq_true, if_true,
          List.mem_cons, not_or] at h
        have htail := (ih h.2).resolve_right hc
        simp [strchr, Ne.symm h.1, hb, htail]

theorem strchr_eq_some {c : UInt8} {line rest : List UInt8} (hc : c ∉ line) (h0 : 0 ∉ line) :
    strchr c (line ++ c :: rest) = some (line, rest) := by
  induction line with
  | nil => simp [strchr]
  | cons b line ih =>
    simp only [List.mem_cons, not_or] at hc h0
    simp [strchr, Ne.symm hc.1, Ne.symm h0.1, ih hc.2 h0.2]

theorem exists_first_line {p : List UInt8} (h : newline ∈ p.takeWhile (· != 0)) :
    ∃ line rest, p = line ++ newline :: rest ∧ newline ∉ line ∧ 0 ∉ line ∧
      bufferLines p = line :: bufferLines rest := by
  obtain ⟨line, ys, hline, hsplit⟩ := exists_record_of_mem h
  have hprefix : p.takeWhile (· != 0) <+: p := List.takeWhile_prefix _
  obtain ⟨zs, hzs⟩ := hprefix
  have hp : p = line ++ newline :: (ys ++ zs) := by
    rw [← hzs, hsplit]
    simp
  have hnul : 0 ∉ line := by
    intro hmem
    have htaken : (0 : UInt8) ∈ p.takeWhile (· != 0) := by
      rw [hsplit]
      simp [hmem]
    simpa using List.mem_takeWhile_imp htaken
  have hrest : (ys ++ zs).takeWhile (· != 0) = ys := by
    have htake := hsplit
    rw [hp, List.takeWhile_append_of_pos, List.takeWhile_cons] at htake
    · have hne : newline ≠ 0 := by decide
      simpa [hne] using htake
    · intro a ha
      simpa using fun h0 : a = 0 => hnul (h0 ▸ ha)
  refine ⟨line, ys ++ zs, hp, hline, hnul, ?_⟩
  rw [bufferLines, hsplit, records_record _ hline, bufferLines, hrest]

theorem bufferLines_of_notMem {p : List UInt8} (h : newline ∉ p) : bufferLines p = [] :=
  recordsFrom_of_notMem [] fun hmem => h (List.takeWhile_subset _ hmem)

theorem bufferLines_line {line : List UInt8} (hline : newline ∉ line) (hnul : 0 ∉ line) :
    bufferLines (line ++ [newline]) = [line] := by
  have hplain : 0 ∉ line ++ [newline] := by
    rw [List.mem_append, not_or]
    exact ⟨hnul, by decide⟩
  rw [bufferLines, List.takeWhile_eq_self_iff.mpr (bne_of_notMem hplain), records_record _ hline]
  rfl

theorem bufferLoop_eq (env : SysfsEnv) (fuel : Nat) (p : List UInt8) (s : Session)
    (enough : p.length ≤ fuel) :
    bufferLoop env fuel p s = (bufferLines p).foldl (handleLine env) s := by
  induction fuel generalizing p s with
  | zero =>
    obtain rfl : p = [] := List.length_eq_zero_iff.mp (by omega)
    rfl
  | succ fuel ih =>
    by_cases hmem : newline ∈ p.takeWhile (· != 0)
    · obtain ⟨line, rest, hp, hline, hnul, hlines⟩ := exists_first_line hmem
      have hhead : p.headD 0 ≠ 0 := by
        cases line with
        | nil =>
          rw [hp]
          exact show newline ≠ 0 by decide
        | cons b line =>
          rw [hp]
          intro h
          apply hnul
          rw [← h]
          exact List.mem_cons_self
      have hlen : rest.length ≤ fuel := by
        rw [hp] at enough
        simp only [List.length_append, List.length_cons] at enough
        omega
      rw [hlines, List.foldl_cons, ← ih _ _ hlen, bufferLoop, if_neg hhead]
      simp only [hp, strchr_eq_some hline hnul]
    · have hnone : strchr newline p = none := (strchr_eq_none hmem).resolve_right (by decide)
      have hlines : bufferLines p = [] := recordsFrom_of_notMem [] hmem
      rw [hlines, bufferLoop, hnone]
      simp

theorem handleClient_eq (env : SysfsEnv) (pieces : List (List UInt8)) (s : Session) :
    handleClient env pieces s = (dispatched pieces).foldl (handleLine env) s := by
  induction pieces generalizing s with
  | nil => rfl
  | cons p pieces ih =>
    have hstep : handleClient env (p :: pieces) s =
        handleClient env pieces (bufferLoop env p.length p s) := rfl
    have hlines : dispatched (p :: pieces) = bufferLines p ++ dispatched pieces := rfl
    rw [hstep, ih, bufferLoop_eq env _ p s le_rfl, hlines, List.foldl_append]

theorem runCommand_grows (env : SysfsEnv) (c : Command) (h : Host) :
    h.events <+: (runCommand env c h).events := by
  cases c with
  | init => exact lcdHwInit_grows env (loadPinsFromUci env h)
  | clear => exact lcdWrite_grows env false 0x01 h
  | home => exact lcdWrite_grows env false 0x02 h
  | instr v => exact lcdWrite_grows env false v h
  | put text => exact lcdWriteText_grows env text h
  | ddram addr => exact lcdWrite_grows env false _ h

theorem handleClient_grows (env : SysfsEnv) (pieces : List (List UInt8)) (s : Session) :
    s.host.events <+: (handleClient env pieces s).host.events := by
  rw [handleClient_eq]
  induction dispatched pieces generalizing s with
  | nil => exact List.prefix_rfl
  | cons line lines ih =>
    refine List.IsPrefix.trans ?_ (ih (handleLine env s line))
    unfold handleLine
    split
    · exact List.prefix_rfl
    · exact runCommand_grows env _ s.host

theorem dispatch_error {line reply : List UInt8} (h : dispatch line = .error reply) :
    reply = badHexReply ∨ reply = unknownReply := by
  unfold dispatch at h
  split_ifs at h
  · split at h <;> cases h
    exact Or.inl rfl
  · split at h <;> cases h
    exact Or.inl rfl
  · cases h
    exact Or.inr rfl

section Words

variable (more : List UInt8)

theorem dispatch_init : dispatch (ascii "INIT" ++ more) = .ok .init := by
  simp [dispatch, ascii]

theorem dispatch_clear : dispatch (ascii "CLEAR" ++ more) = .ok .clear := by
  simp [dispatch, ascii]

theorem dispatch_home : dispatch (ascii "HOME" ++ more) = .ok .home := by
  simp [dispatch, ascii]

theorem dispatch_put (text : List UInt8) : dispatch (ascii "PUT " ++ text) = .ok (.put text) := by
  simp [dispatch, ascii]

theorem dispatch_instr {arg : List UInt8} {v : UInt8} (scanned : parseHex arg = some v) :
    dispatch (ascii "INSTR " ++ arg) = .ok (.instr v) := by
  simp [dispatch, ascii, scanned]

theorem dispatch_ddram {arg : List UInt8} {addr : UInt8} (scanned : parseHex arg = some addr) :
    dispatch (ascii "DDRAM " ++ arg) = .ok (.ddram addr) := by
  simp [dispatch, ascii, scanned]

end Words

section Lines

variable {line reply : List UInt8} {c : Command}

theorem named_of_ok (h : dispatch line = .ok c) : named line = some c := by
  rw [named, h, Except.toOption]

theorem named_of_error (h : dispatch line = .error reply) : named line = none := by
  rw [named, h, Except.toOption]

theorem named_eq_some_iff : named line = some c ↔ dispatch line = .ok c := by
  constructor
  · intro h
    cases hd : dispatch line with
    | ok c' =>
      rw [named_of_ok hd] at h
      rw [Option.some.inj h]
    | error reply =>
      rw [named_of_error hd] at h
      cases h
  · exact named_of_ok

theorem handleLine_of_ok (env : SysfsEnv) (s : Session) (h : dispatch line = .ok c) :
    handleLine env s line =
      ⟨runCommand env c s.host, s.replies ++ [okReply], s.executed ++ [c]⟩ := by
  simp only [handleLine, h]

theorem handleLine_of_error (env : SysfsEnv) (s : Session) (h : dispatch line = .error reply) :
    handleLine env s line = { s with replies := s.replies ++ [reply] } := by
  simp only [handleLine, h]

theorem err_of_dispatch (h : dispatch line = .error reply) : ascii "ERR " <+: reply := by
  rcases dispatch_error h with rfl | rfl
  · exact ⟨ascii "badhex\n", rfl⟩
  · exact ⟨ascii "unknown\n", rfl⟩

end Lines

theorem executed_foldl (env : SysfsEnv) (lines : List (List UInt8)) (s : Session) :
    (lines.foldl (handleLine env) s).executed = s.executed ++ lines.filterMap named := by
  induction lines generalizing s with
  | nil => simp
  | cons line lines ih =>
    rw [List.foldl_cons, ih, List.filterMap_cons]
    cases hd : dispatch line with
    | error reply => simp [handleLine_of_error env s hd, named_of_error hd]
    | ok c => simp [handleLine_of_ok env s hd, named_of_ok hd]

def replyTo (line : List UInt8) : List UInt8 :=
  match dispatch line with
  | .error reply => reply
  | .ok _ => okReply

theorem replies_foldl (env : SysfsEnv) (lines : List (List UInt8)) (s : Session) :
    (lines.foldl (handleLine env) s).replies = s.replies ++ lines.map replyTo := by
  induction lines generalizing s with
  | nil => simp
  | cons line lines ih =>
    rw [List.foldl_cons, ih, List.map_cons]
    cases hd : dispatch line with
    | error reply => simp [handleLine_of_error env s hd, replyTo, hd]
    | ok c => simp [handleLine_of_ok env s hd, replyTo, hd]

theorem replyTo_ne_nil (line : List UInt8) : replyTo line ≠ [] := by
  unfold replyTo
  split
  · rename_i reply h
    rcases dispatch_error h with rfl | rfl
    · decide
    · decide
  · decide

theorem ok_prefix_replyTo (line more : List UInt8) :
    ascii "OK" <+: (replyTo line ++ more).take 255 ↔ named line ≠ none := by
  cases hd : dispatch line with
  | ok c =>
    have hprefix : ascii "OK" <+: (okReply ++ more).take 255 := ⟨_, rfl⟩
    simpa [replyTo, named_of_ok hd, hd] using hprefix
  | error reply =>
    have hfirst : ¬ ascii "OK" <+: (reply ++ more).take 255 := by
      rcases dispatch_error hd with rfl | rfl
      · rintro ⟨t, ht⟩
        exact absurd (List.cons.inj ht).1 (by decide)
      · rintro ⟨t, ht⟩
        exact absurd (List.cons.inj ht).1 (by decide)
    simpa [replyTo, named_of_error hd, hd] using hfirst

theorem executed_handleClient (env : SysfsEnv) (pieces : List (List UInt8)) (s : Session) :
    (handleClient env pieces s).executed = s.executed ++ (dispatched pieces).filterMap named := by
  rw [handleClient_eq, executed_foldl]

end Evi7688.Lcdsvc.Service
