/- Evi7688/Lcdsvc/Grammar
   digest: The documented lines of the LCD daemon, and the lines it takes for commands. -/

import Evi7688.Lcdsvc.Service

set_option autoImplicit false
set_option relaxedAutoImplicit false

namespace Evi7688.Lcdsvc.Grammar

open Evi7688.Library.Bytes (ascii newline)
open Evi7688.Library.Delimited
open Evi7688.Library.Numerals
open Evi7688.Library.Pieces (fill fill_step fill_of_length_le)
open LcdHw
open Service

/-- One or two hexadecimal digits, after `0x` or without it, and their value. -/
inductive HexByte : List UInt8 → UInt8 → Prop
  | plain {ds : List UInt8} (nonempty : ds ≠ []) (short : ds.length ≤ 2)
      (digits : ∀ d ∈ ds, isHexDigit d = true) : HexByte ds (UInt8.ofNat (digitsValue 16 ds))
  | prefixed {ds : List UInt8} (nonempty : ds ≠ []) (short : ds.length ≤ 2)
      (digits : ∀ d ∈ ds, isHexDigit d = true) :
    HexByte (ascii "0x" ++ ds) (UInt8.ofNat (digitsValue 16 ds))

/-- The lines of `proto.h` and their commands. -/
inductive Sentence : List UInt8 → Command → Prop
  | init : Sentence (ascii "INIT") .init
  | clear : Sentence (ascii "CLEAR") .clear
  | home : Sentence (ascii "HOME") .home
  | instr {h : List UInt8} {v : UInt8} (byte : HexByte h v) :
    Sentence (ascii "INSTR " ++ h) (.instr v)
  | put (text : List UInt8) : Sentence (ascii "PUT " ++ text) (.put text)
  | ddram {h : List UInt8} {addr : UInt8} (byte : HexByte h addr) :
    Sentence (ascii "DDRAM " ++ h) (.ddram addr)

def IsSentence (line : List UInt8) : Prop := ∃ c, Sentence line c

/-- The lines outside the grammar that are taken for commands: something follows a command without
argument, or the argument only starts like a number. -/
inductive OverAccepted : List UInt8 → Prop
  | word {w more : List UInt8} (word : w ∈ [ascii "INIT", ascii "CLEAR", ascii "HOME"])
      (trailing : more ≠ []) : OverAccepted (w ++ more)
  | number {w arg : List UInt8} (word : w ∈ [ascii "INSTR ", ascii "DDRAM "])
      (scanned : parseHex arg ≠ none) (malformed : ∀ v, ¬ HexByte arg v) : OverAccepted (w ++ arg)

/-- What of a line is in the buffer together with its end, when every `recv` fills the buffer. -/
def lastBuffer (line : List UInt8) : List UInt8 := line.drop (511 * (line.length / 511))

/-- The connection on which a client sends the line. -/
def serveLine (env : SysfsEnv) (s : Session) (line : List UInt8) : Session :=
  handleClient env (fill 511 (line ++ [newline])) s

/-- The line is served as the command: its effect on the host, one `OK`, and nothing else. -/
def CarriedOut (env : SysfsEnv) (s : Session) (line : List UInt8) (c : Command) : Prop :=
  serveLine env s line =
    ⟨runCommand env c s.host, s.replies ++ [okReply], s.executed ++ [c]⟩

/-- A sentence makes the daemon act, and any other line gets an `ERR` line and does nothing. -/
structure Conforms (env : SysfsEnv) (s : Session) (line : List UInt8) : Prop where
  acts : IsSentence line → ∃ c, CarriedOut env s line c
  refuses : ¬ IsSentence line → ∃ msg, ascii "ERR " <+: msg ∧
    serveLine env s line = { s with replies := s.replies ++ [msg] }

section Buffers

theorem lastBuffer_of_le {line : List UInt8} (short : line.length ≤ 510) :
    lastBuffer line = line := by
  rw [lastBuffer, Nat.div_eq_of_lt (by omega)]
  rfl

theorem dispatched_fill {line : List UInt8} (hline : newline ∉ line) (hnul : 0 ∉ line) :
    dispatched (fill 511 (line ++ [newline])) = [lastBuffer line] := by
  induction hlength : line.length using Nat.strong_induction_on generalizing line with
  | _ n ih =>
    by_cases hshort : line.length ≤ 510
    · have hfill : fill 511 (line ++ [newline]) = [line ++ [newline]] := by
        apply fill_of_length_le (by simp)
        rw [List.length_append, List.length_singleton]
        omega
      rw [hfill, lastBuffer_of_le hshort, dispatched, List.flatMap_singleton,
        bufferLines_line hline hnul]
    · have htake : (line ++ [newline]).take 511 = line.take 511 :=
        List.take_append_of_le_length (by omega)
      have hdrop : (line ++ [newline]).drop 511 = line.drop 511 ++ [newline] :=
        List.drop_append_of_le_length (by omega)
      have hrest := ih (line.drop 511).length (by rw [List.length_drop]; omega)
        (fun hmem => hline (List.mem_of_mem_drop hmem))
        (fun hmem => hnul (List.mem_of_mem_drop hmem)) rfl
      have hlast : lastBuffer (line.drop 511) = lastBuffer line := by
        rw [lastBuffer, lastBuffer, List.drop_drop, List.length_drop]
        congr 1
        omega
      have hfull : bufferLines (line.take 511) = [] :=
        bufferLines_of_notMem fun hmem => hline (List.mem_of_mem_take hmem)
      rw [fill_step (by decide) (by simp), htake, hdrop, dispatched, List.flatMap_cons, hfull,
        List.nil_append, ← hlast]
      exact hrest

theorem serveLine_eq (env : SysfsEnv) (s : Session) {line : List UInt8} (hline : newline ∉ line)
    (hnul : 0 ∉ line) : serveLine env s line = handleLine env s (lastBuffer line) := by
  rw [serveLine, handleClient_eq, dispatched_fill hline hnul]
  rfl

end Buffers

section Dispatch

variable {line : List UInt8}

theorem digitsValue_lt {ds : List UInt8} (short : ds.length ≤ 2)
    (digits : ∀ d ∈ ds, isHexDigit d = true) : digitsValue 16 ds < 2 ^ 32 := by
  have hpow : 16 ^ ds.length ≤ 16 ^ 2 := Nat.pow_le_pow_right (by omega) short
  have hlt := digitsValue_lt_pow digits
  omega

theorem HexByte.parseHex_eq {arg : List UInt8} {v : UInt8} (byte : HexByte arg v) :
    parseHex arg = some v := by
  cases byte with
  | plain nonempty short digits =>
    rw [parseHex, scanHex_digits nonempty digits (digitsValue_lt short digits)]
    rfl
  | prefixed nonempty short digits =>
    rw [parseHex, scanHex_prefixed nonempty digits (digitsValue_lt short digits)]
    rfl

theorem Sentence.dispatch_eq {c : Command} (h : Sentence line c) : dispatch line = .ok c := by
  cases h with
  | init => exact dispatch_init []
  | clear => exact dispatch_clear []
  | home => exact dispatch_home []
  | instr byte => exact dispatch_instr byte.parseHex_eq
  | put text => exact dispatch_put text
  | ddram byte => exact dispatch_ddram byte.parseHex_eq

theorem dispatch_word {w : List UInt8} (word : w ∈ [ascii "INIT", ascii "CLEAR", ascii "HOME"])
    (more : List UInt8) :
    ∃ c, dispatch (w ++ more) = .ok c ∧ Sentence w c ∧ ∀ l, Sentence l c → l = w := by
  simp only [List.mem_cons, List.not_mem_nil, or_false] at word
  rcases word with rfl | rfl | rfl
  · refine ⟨_, dispatch_init more, .init, fun l hl => ?_⟩
    cases hl
    rfl
  · refine ⟨_, dispatch_clear more, .clear, fun l hl => ?_⟩
    cases hl
    rfl
  · refine ⟨_, dispatch_home more, .home, fun l hl => ?_⟩
    cases hl
    rfl

theorem dispatch_number {w arg : List UInt8} {v : UInt8}
    (word : w ∈ [ascii "INSTR ", ascii "DDRAM "]) (scanned : parseHex arg = some v) :
    ∃ c, dispatch (w ++ arg) = .ok c ∧ ∀ l, Sentence l c → ∃ h, HexByte h v ∧ l = w ++ h := by
  simp only [List.mem_cons, List.not_mem_nil, or_false] at word
  rcases word with rfl | rfl
  · refine ⟨_, dispatch_instr scanned, fun l hl => ?_⟩
    cases hl with
    | @instr h _ byte => exact ⟨h, byte, rfl⟩
  · refine ⟨_, dispatch_ddram scanned, fun l hl => ?_⟩
    cases hl with
    | @ddram h _ byte => exact ⟨h, byte, rfl⟩

theorem OverAccepted.exists_dispatch (h : OverAccepted line) : ∃ c, dispatch line = .ok c := by
  cases h with
  | @word w more word trailing =>
    obtain ⟨c, hc, -⟩ := dispatch_word word more
    exact ⟨c, hc⟩
  | @number w arg word scanned malformed =>
    obtain ⟨v, hv⟩ := Option.ne_none_iff_exists'.mp scanned
    obtain ⟨c, hc, -⟩ := dispatch_number word hv
    exact ⟨c, hc⟩

theorem OverAccepted.not_isSentence (h : OverAccepted line) : ¬ IsSentence line := by
  rintro ⟨c, hc⟩
  have hdispatch := hc.dispatch_eq
  cases h with
  | @word w more word trailing =>
    obtain ⟨c', hc', -, only⟩ := dispatch_word word more
    obtain rfl := Except.ok.inj (hc'.symm.trans hdispatch)
    exact trailing (List.append_right_eq_self.mp (only _ hc))
  | @number w arg word scanned malformed =>
    obtain ⟨v, hv⟩ := Option.ne_none_iff_exists'.mp scanned
    obtain ⟨c', hc', named⟩ := dispatch_number word hv
    obtain rfl := Except.ok.inj (hc'.symm.trans hdispatch)
    obtain ⟨h, byte, heq⟩ := named _ hc
    obtain rfl := List.append_cancel_left heq
    exact malformed v byte

theorem word_cases {w : List UInt8} (word : w ∈ [ascii "INIT", ascii "CLEAR", ascii "HOME"])
    (h : w <+: line) : IsSentence line ∨ OverAccepted line := by
  obtain ⟨more, rfl⟩ := h
  by_cases hmore : more = []
  · obtain ⟨c, -, sentence, -⟩ := dispatch_word word more
    subst hmore
    rw [List.append_nil]
    exact Or.inl ⟨c, sentence⟩
  · exact Or.inr (.word word hmore)

theorem number_cases {w arg : List UInt8} (word : w ∈ [ascii "INSTR ", ascii "DDRAM "])
    (sentence : ∀ v, HexByte arg v → IsSentence (w ++ arg)) (scanned : parseHex arg ≠ none) :
    IsSentence (w ++ arg) ∨ OverAccepted (w ++ arg) := by
  by_cases hbyte : ∃ v, HexByte arg v
  · obtain ⟨v, hv⟩ := hbyte
    exact Or.inl (sentence v hv)
  · exact Or.inr (.number word scanned fun v hv => hbyte ⟨v, hv⟩)

theorem accepted_of_dispatch {c : Command} (h : dispatch line = .ok c) :
    IsSentence line ∨ OverAccepted line := by
  unfold dispatch at h
  split_ifs at h with hinit hclear hhome hinstr hput hddram
  · exact word_cases (by decide) hinit
  · exact word_cases (by decide) hclear
  · exact word_cases (by decide) hhome
  · obtain ⟨arg, rfl⟩ := hinstr
    have harg : (ascii "INSTR " ++ arg).drop 6 = arg := rfl
    apply number_cases (by decide) fun v hv => ⟨_, .instr hv⟩
    intro hnone
    rw [harg, hnone] at h
    cases h
  · obtain ⟨text, rfl⟩ := hput
    exact Or.inl ⟨_, .put text⟩
  · obtain ⟨arg, rfl⟩ := hddram
    have harg : (ascii "DDRAM " ++ arg).drop 6 = arg := rfl
    apply number_cases (by decide) fun v hv => ⟨_, .ddram hv⟩
    intro hnone
    rw [harg, hnone] at h
    cases h

theorem named_ne_none_iff (line : List UInt8) :
    named line ≠ none ↔ IsSentence line ∨ OverAccepted line := by
  constructor
  · intro h
    cases hd : dispatch line with
    | ok c => exact accepted_of_dispatch hd
    | error reply => exact absurd (named_of_error hd) h
  · rintro (⟨c, hc⟩ | hover)
    · simp [named_of_ok hc.dispatch_eq]
    · obtain ⟨c, hc⟩ := hover.exists_dispatch
      simp [named_of_ok hc]

end Dispatch

section Conformance

variable (env : SysfsEnv) (s : Session) {line : List UInt8}

theorem carriedOut_of_dispatch {c : Command} (hline : newline ∉ line) (hnul : 0 ∉ line)
    (h : dispatch (lastBuffer line) = .ok c) : CarriedOut env s line c := by
  rw [CarriedOut, serveLine_eq env s hline hnul]
  exact handleLine_of_ok env s h

theorem CarriedOut.executed {c : Command} (h : CarriedOut env s line c) :
    (serveLine env s line).executed = s.executed ++ [c] := by
  rw [h]

theorem carriedOut_of_sentence {c : Command} (hline : newline ∉ line) (hnul : 0 ∉ line)
    (short : line.length ≤ 510) (h : Sentence line c) : CarriedOut env s line c := by
  apply carriedOut_of_dispatch env s hline hnul
  rw [lastBuffer_of_le short]
  exact h.dispatch_eq

theorem conforms_iff_named (hline : newline ∉ line) (hnul : 0 ∉ line) :
    Conforms env s line ↔ (IsSentence line ↔ named (lastBuffer line) ≠ none) := by
  cases hd : dispatch (lastBuffer line) with
  | ok c =>
    have hnamed : named (lastBuffer line) ≠ none := by simp [named_of_ok hd]
    have hacts := carriedOut_of_dispatch env s hline hnul hd
    constructor
    · intro h
      refine iff_of_true (by_contra fun hno => ?_) hnamed
      obtain ⟨msg, -, hrefused⟩ := h.refuses hno
      have hexecuted := hacts.executed
      rw [hrefused] at hexecuted
      simp at hexecuted
    · intro h
      exact ⟨fun _ => ⟨c, hacts⟩, fun hno => absurd (h.mpr hnamed) hno⟩
  | error reply =>
    have hnamed : ¬ named (lastBuffer line) ≠ none := not_not.mpr (named_of_error hd)
    have hrefuses : serveLine env s line = { s with replies := s.replies ++ [reply] } :=
      (serveLine_eq env s hline hnul).trans (handleLine_of_error env s hd)
    constructor
    · intro h
      refine iff_of_false (fun hyes => ?_) hnamed
      obtain ⟨c, hacts⟩ := h.acts hyes
      have hexecuted := hacts.executed
      rw [hrefuses] at hexecuted
      simp at hexecuted
    · intro h
      exact ⟨fun hyes => absurd (h.mp hyes) hnamed, fun _ => ⟨reply, err_of_dispatch hd, hrefuses⟩⟩

/-- A line that fits the buffer is treated by the grammar unless it is one of those taken for a
command. -/
theorem conforms_short_iff (hline : newline ∉ line) (hnul : 0 ∉ line)
    (short : line.length ≤ 510) : Conforms env s line ↔ ¬ OverAccepted line := by
  rw [conforms_iff_named env s hline hnul, lastBuffer_of_le short, named_ne_none_iff]
  constructor
  · exact fun h hover => hover.not_isSentence (h.mpr (Or.inr hover))
  · exact fun hover => ⟨Or.inl, fun h => h.resolve_right hover⟩

end Conformance

/-- The daemon goes by the grammar exactly if a line is a sentence when, and only when, what stands
in the last buffer is a sentence or is taken for one. A sentence that fits the buffer is carried
out as its own command. -/
theorem conforms_line_iff (env : SysfsEnv) (s : Session) {line : List UInt8}
    (hline : newline ∉ line) (hnul : 0 ∉ line) :
    (Conforms env s line ↔
      (IsSentence line ↔ IsSentence (lastBuffer line) ∨ OverAccepted (lastBuffer line))) ∧
      (line.length ≤ 510 → ∀ c, Sentence line c → CarriedOut env s line c) := by
  refine ⟨?_, fun short c h => carriedOut_of_sentence env s hline hnul short h⟩
  rw [conforms_iff_named env s hline hnul, named_ne_none_iff]

theorem conforms_clear :
    Conforms openEnv ⟨openHost, [], []⟩ (ascii "CLEAR") ∧
      CarriedOut openEnv ⟨openHost, [], []⟩ (ascii "CLEAR") .clear := by
  have hsentence : IsSentence (ascii "CLEAR") := ⟨_, .clear⟩
  obtain ⟨hiff, hown⟩ := conforms_line_iff openEnv ⟨openHost, [], []⟩
    (show newline ∉ ascii "CLEAR" by decide) (by decide)
  exact ⟨hiff.mpr ⟨Or.inl, fun _ => hsentence⟩, hown (by decide) .clear .clear⟩

/-- Anything that starts with `INIT` initialises the panel. -/
theorem not_always_conforms_line :
    ¬ ∀ (env : SysfsEnv) (s : Session) (line : List UInt8), newline ∉ line → 0 ∉ line →
      Conforms env s line := by
  intro h
  have hnewline : newline ∉ ascii "INITX" := by decide
  have hnul : 0 ∉ ascii "INITX" := by decide
  have hover : OverAccepted (ascii "INITX") := .word (w := ascii "INIT") (by decide) (by decide)
  have hconforms := h openEnv ⟨openHost, [], []⟩ (ascii "INITX") hnewline hnul
  exact (conforms_short_iff openEnv ⟨openHost, [], []⟩ hnewline hnul (by decide)).mp hconforms hover

end Evi7688.Lcdsvc.Grammar
