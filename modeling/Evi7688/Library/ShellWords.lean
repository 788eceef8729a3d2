/- Evi7688/Library/ShellWords
   digest: The words a POSIX shell makes of a command line. -/

import Evi7688.Library.Bytes

set_option autoImplicit false
set_option relaxedAutoImplicit false

namespace Evi7688.Library.ShellWords

open Evi7688.Library.Bytes (ascii)

/-- One character of a word, with the memory of having been quoted. -/
structure Glyph where
  byte : UInt8
  quoted : Bool
  deriving DecidableEq

abbrev Word := List Glyph

def text (w : Word) : List UInt8 := w.map Glyph.byte

def unquoted (bs : List UInt8) : Word := bs.map fun b => ⟨b, false⟩

inductive Token
  | word (w : Word)
  | operator (b : UInt8)
  deriving DecidableEq

inductive Mode
  | bare | escaped | single | double | doubleEscaped | comment
  deriving DecidableEq

/-- The scanner between two characters; `current` is the word it is in, if it is in one. -/
structure State where
  mode : Mode
  current : Option Word
  deriving DecidableEq

def start : State := ⟨.bare, none⟩

def blanks : List UInt8 := ascii " \t"

/-- The characters of the control and redirection operators, and the end of a line. -/
def operators : List UInt8 := ascii ";&|<>()\n"

def hash : UInt8 := 0x23

def dollar : UInt8 := 0x24

def singleQuote : UInt8 := 0x27

def doubleQuote : UInt8 := 0x22

def backslash : UInt8 := 0x5C

def backquote : UInt8 := 0x60

def tilde : UInt8 := 0x7E

def isNameByte (b : UInt8) : Bool :=
  (0x41 ≤ b && b ≤ 0x5A) || (0x61 ≤ b && b ≤ 0x7A) || (0x30 ≤ b && b ≤ 0x39) || b == 0x5F

/-- Whether a `$` before this character starts an expansion; elsewhere it stands for itself. -/
def startsExpansion (next : Option UInt8) : Bool :=
  next.any fun b => isNameByte b || (ascii "@*#?$!-\x7b(").contains b

def extend (current : Option Word) (b : UInt8) (quoted : Bool) : Option Word :=
  some (current.getD [] ++ [⟨b, quoted⟩])

def flush (current : Option Word) : List Token := (current.map Token.word).toList

/-- The effect of one character, given the one after it: the tokens completed and the new state.
There is none where an expansion starts, whose outcome is not in the text. -/
def step (s : State) (b : UInt8) (next : Option UInt8) : Option (List Token × State) :=
  match s.mode with
  | .bare =>
    if b ∈ blanks then some (flush s.current, start)
    else if b ∈ operators then some (flush s.current ++ [.operator b], start)
    else if b = hash ∧ s.current = none then some ([], ⟨.comment, none⟩)
    else if b = singleQuote then some ([], ⟨.single, some (s.current.getD [])⟩)
    else if b = doubleQuote then some ([], ⟨.double, some (s.current.getD [])⟩)
    else if b = backslash then some ([], ⟨.escaped, s.current⟩)
    else if b = backquote ∨ b = dollar ∧ startsExpansion next ∨ b = tilde ∧ s.current = none then
      none
    else some ([], ⟨.bare, extend s.current b false⟩)
  | .escaped =>
    if b = 0x0A then some ([], ⟨.bare, s.current⟩)
    else some ([], ⟨.bare, extend s.current b true⟩)
  | .single =>
    if b = singleQuote then some ([], ⟨.bare, s.current⟩)
    else some ([], ⟨.single, extend s.current b true⟩)
  | .double =>
    if b = doubleQuote then some ([], ⟨.bare, s.current⟩)
    else if b = backslash then some ([], ⟨.doubleEscaped, s.current⟩)
    else if b = backquote ∨ b = dollar ∧ startsExpansion next then none
    else some ([], ⟨.double, extend s.current b true⟩)
  | .doubleEscaped =>
    if b = 0x0A then some ([], ⟨.double, s.current⟩)
    else if b ∈ [dollar, backquote, doubleQuote, backslash] then
      some ([], ⟨.double, extend s.current b true⟩)
    else some ([], ⟨.double, extend (extend s.current backslash true) b true⟩)
  | .comment => if b = 0x0A then some ([.operator b], start) else some ([], s)

/-- The tokens at the end of the text; a quote left open has none. -/
def finish (s : State) : Option (List Token) :=
  match s.mode with
  | .bare | .comment => some (flush s.current)
  | .escaped => some (flush (extend s.current backslash false))
  | .single | .double | .doubleEscaped => none

def lex (s : State) : List UInt8 → Option (List Token)
  | [] => finish s
  | b :: rest =>
    (step s b rest.head?).bind fun r => (lex r.2 rest).map fun tokens => r.1 ++ tokens

/-- The words of a text without operators. It is one simple command if its first word is neither a
reserved word nor an assignment. -/
def simpleCommand : List Token → Option (List Word)
  | [] => some []
  | .word w :: rest => (simpleCommand rest).map fun ws => w :: ws
  | .operator _ :: _ => none

def isPattern (w : Word) : Bool := w.any fun g => !g.quoted && (ascii "*?[").contains g.byte

/-- Pathname expansion: a pattern without matches is left as it is. -/
def expandPaths (matching : Word → List (List UInt8)) (w : Word) : List (List UInt8) :=
  if isPattern w ∧ matching w ≠ [] then matching w else [text w]

/-- The words the command is run with, where the text alone decides them. -/
def commandWords (matching : Word → List (List UInt8)) (line : List UInt8) :
    Option (List (List UInt8)) :=
  ((lex start line).bind simpleCommand).map fun ws => ws.flatMap (expandPaths matching)

/-- A name that matches a pattern starts with the characters before its first special one, and a
bracket around one digit matches that digit. -/
def MatchesBracket (matching : Word → List (List UInt8)) : Prop :=
  ∀ (before : List UInt8) (digit : UInt8) (after : Word) (name : List UInt8),
    isPattern (unquoted before) = false → 0x30 ≤ digit ∧ digit ≤ 0x39 →
      name ∈ matching (unquoted before ++ unquoted [0x5B, digit, 0x5D] ++ after) →
        before ++ [digit] <+: name

def isSimple (b : UInt8) : Bool :=
  !(blanks ++ operators ++ [singleQuote, doubleQuote, backslash, backquote, dollar]).contains b

/-- Text that stands for itself inside an unquoted word. -/
def plain : List UInt8 → Bool
  | [] => true
  | b :: rest =>
    (isSimple b || (b == dollar && !startsExpansion rest.head?) ||
      (b == backslash && rest.isEmpty)) && plain rest

/-- A backslash that was read but may still become text. -/
def Mode.debt : Mode → Nat
  | .escaped | .doubleEscaped => 1
  | .bare | .single | .double | .comment => 0

def State.size (s : State) : Nat := (s.current.getD []).length + s.mode.debt

def Token.letters : Token → Word
  | .word w => w
  | .operator _ => []

def textLength (tokens : List Token) : Nat := (tokens.flatMap Token.letters).length

section Lengths

theorem textLength_append (a b : List Token) :
    textLength (a ++ b) = textLength a + textLength b := by
  simp [textLength]

theorem textLength_word (w : Word) : textLength [.word w] = w.length :=
  congrArg List.length (List.append_nil w)

theorem textLength_flush (current : Option Word) :
    textLength (flush current) = (current.getD []).length := by
  cases current with
  | none => rfl
  | some w => exact textLength_word w

theorem textLength_nil : textLength [] = 0 := rfl

theorem textLength_operator (b : UInt8) : textLength [.operator b] = 0 := rfl

theorem length_extend (current : Option Word) (b : UInt8) (quoted : Bool) :
    ((extend current b quoted).getD []).length = (current.getD []).length + 1 := by
  simp [extend]

theorem size_step {s s' : State} {b : UInt8} {next : Option UInt8} {out : List Token}
    (h : step s b next = some (out, s')) : textLength out + s'.size ≤ s.size + 1 := by
  obtain ⟨mode, current⟩ := s
  cases mode <;> simp only [step] at h <;> split_ifs at h <;> cases h <;>
    simp only [textLength_append, textLength_flush, textLength_nil, textLength_operator, start,
      State.size, Mode.debt, length_extend, Option.getD_some, Option.getD_none, List.length_nil] <;>
    omega

theorem textLength_finish {s : State} {tokens : List Token} (h : finish s = some tokens) :
    textLength tokens ≤ s.size := by
  obtain ⟨mode, current⟩ := s
  cases mode <;> simp only [finish] at h <;> cases h <;>
    simp only [textLength_flush, State.size, Mode.debt, length_extend] <;> omega

theorem lex_cons_eq_some {s : State} {b : UInt8} {rest : List UInt8} {tokens : List Token} :
    lex s (b :: rest) = some tokens ↔
      ∃ out s' more, step s b rest.head? = some (out, s') ∧ lex s' rest = some more ∧
        tokens = out ++ more := by
  simp only [lex, Option.bind_eq_some_iff, Option.map_eq_some_iff, Prod.exists]
  constructor
  · rintro ⟨out, s', hstep, more, hmore, rfl⟩
    exact ⟨out, s', more, hstep, hmore, rfl⟩
  · rintro ⟨out, s', more, hstep, hmore, rfl⟩
    exact ⟨out, s', hstep, more, hmore, rfl⟩

theorem textLength_lex {s : State} {bs : List UInt8} {tokens : List Token}
    (h : lex s bs = some tokens) : textLength tokens ≤ s.size + bs.length := by
  induction bs generalizing s tokens with
  | nil => exact textLength_finish h
  | cons b rest ih =>
    obtain ⟨out, s', more, hstep, hmore, rfl⟩ := lex_cons_eq_some.mp h
    have hone := size_step hstep
    have hrest := ih hmore
    rw [textLength_append, List.length_cons]
    omega

end Lengths

section Plain

variable {w : Word} {b : UInt8} {rest : List UInt8}

theorem step_simple (hb : isSimple b = true) (next : Option UInt8) :
    step ⟨.bare, some w⟩ b next = some ([], ⟨.bare, some (w ++ [⟨b, false⟩])⟩) := by
  simp only [isSimple, Bool.not_eq_true', List.contains_eq_mem, decide_eq_false_iff_not,
    List.mem_append, List.mem_cons, List.not_mem_nil, or_false, not_or] at hb
  obtain ⟨⟨hblank, hoperator⟩, hsingle, hdouble, hbackslash, hbackquote, hdollar⟩ := hb
  simp [step, hblank, hoperator, hsingle, hdouble, hbackslash, hbackquote, hdollar, extend]

theorem step_dollar {next : Option UInt8} (hnext : startsExpansion next = false) :
    step ⟨.bare, some w⟩ dollar next = some ([], ⟨.bare, some (w ++ [⟨dollar, false⟩])⟩) := by
  have hplain : dollar ∉ blanks ++ operators ++ [singleQuote, doubleQuote, backslash, backquote, tilde] := by
    decide
  simp only [List.mem_append, List.mem_cons, List.not_mem_nil, or_false, not_or] at hplain
  obtain ⟨⟨hblank, hoperator⟩, hsingle, hdouble, hbackslash, hbackquote, htilde⟩ := hplain
  simp [step, hblank, hoperator, hsingle, hdouble, hbackslash, hbackquote, hnext, extend]

theorem lex_step {s s' : State} (hstep : step s b rest.head? = some ([], s')) :
    lex s (b :: rest) = lex s' rest := by
  simp [lex, hstep]

theorem lex_of_plain {bs : List UInt8} (h : plain bs = true) :
    lex ⟨.bare, some w⟩ bs = some [.word (w ++ unquoted bs)] := by
  induction bs generalizing w with
  | nil => simp [lex, finish, flush, unquoted]
  | cons b rest ih =>
    simp only [plain, Bool.and_eq_true, Bool.or_eq_true, beq_iff_eq, Bool.not_eq_true'] at h
    obtain ⟨hb, hrest⟩ := h
    have hword : ∀ g : Glyph, g = ⟨b, false⟩ →
        lex ⟨.bare, some (w ++ [g])⟩ rest = some [.word (w ++ unquoted (b :: rest))] := by
      rintro g rfl
      rw [ih hrest]
      simp [unquoted]
    rcases hb with (hsimple | ⟨rfl, hnext⟩) | ⟨rfl, hlast⟩
    · rw [lex_step (step_simple hsimple _)]
      exact hword _ rfl
    · rw [lex_step (step_dollar hnext)]
      exact hword _ rfl
    · obtain rfl : rest = [] := List.isEmpty_iff.mp hlast
      rfl

theorem plain_of_isSimple {bs : List UInt8} (h : ∀ b ∈ bs, isSimple b = true) :
    plain bs = true := by
  induction bs with
  | nil => rfl
  | cons b rest ih =>
    simp [plain, h b List.mem_cons_self, ih fun c hc => h c (List.mem_cons_of_mem _ hc)]

theorem size_step_lt {s' : State} {next : Option UInt8} {out : List Token}
    (h : step ⟨.bare, some w⟩ b next = some (out, s')) (hb : isSimple b = false)
    (hdollar : b ≠ dollar) (hbackslash : b ≠ backslash) : textLength out + s'.size ≤ w.length := by
  simp only [isSimple, Bool.not_eq_false', List.contains_eq_mem, decide_eq_true_eq,
    List.mem_append, List.mem_cons, List.not_mem_nil, or_false] at hb
  simp only [step, reduceCtorEq, and_false, if_false] at h
  split_ifs at h with hblank hoperator hsingle hdouble hexpand
  · cases h
    simp [textLength_flush, State.size, start, Mode.debt]
  · cases h
    simp [textLength_append, textLength_flush, textLength_operator, State.size, start, Mode.debt]
  · cases h
    simp [textLength_nil, State.size, Mode.debt]
  · cases h
    simp [textLength_nil, State.size, Mode.debt]
  · rw [not_or] at hexpand
    rcases hb with (hb | hb) | hb | hb | hb | hb | hb
    · exact absurd hb hblank
    · exact absurd hb hoperator
    · exact absurd hb hsingle
    · exact absurd hb hdouble
    · exact absurd hb hbackslash
    · exact absurd hb hexpand.1
    · exact absurd hb hdollar

theorem size_step_escaped {s' : State} {next : Option UInt8} {out : List Token}
    (h : step ⟨.escaped, some w⟩ b next = some (out, s')) :
    textLength out + s'.size ≤ w.length + 1 := by
  simp only [step] at h
  split_ifs at h
  · cases h
    simp [textLength_nil, State.size, Mode.debt]
  · cases h
    simp [textLength_nil, State.size, Mode.debt, extend]

theorem textLength_lex_backslash {c : UInt8} {tokens : List Token}
    (h : lex ⟨.bare, some w⟩ (backslash :: c :: rest) = some tokens) :
    textLength tokens ≤ w.length + 1 + rest.length := by
  have hescaped : step ⟨.bare, some w⟩ backslash (c :: rest).head? =
      some ([], ⟨.escaped, some w⟩) := rfl
  rw [lex_step hescaped] at h
  obtain ⟨out, s', more, hstep, hmore, rfl⟩ := lex_cons_eq_some.mp h
  have hone := size_step_escaped hstep
  have htail := textLength_lex hmore
  rw [textLength_append]
  omega

theorem plain_of_textLength {bs : List UInt8} {tokens : List Token}
    (h : lex ⟨.bare, some w⟩ bs = some tokens)
    (hkept : w.length + bs.length ≤ textLength tokens) : plain bs = true := by
  induction bs generalizing w with
  | nil => rfl
  | cons b rest ih =>
    obtain ⟨out, s', more, hstep, hmore, rfl⟩ := lex_cons_eq_some.mp h
    have hrest := textLength_lex hmore
    rw [textLength_append, List.length_cons] at hkept
    have hkeeps : ∀ g : Glyph, lex ⟨.bare, some (w ++ [g])⟩ rest = some (out ++ more) →
        plain rest = true := by
      intro g hg
      apply ih hg
      rw [textLength_append, List.length_append, List.length_singleton]
      omega
    by_cases hsimple : isSimple b = true
    · rw [lex_step (step_simple hsimple _)] at h
      simp [plain, hsimple, hkeeps _ h]
    by_cases hdollar : b = dollar
    · subst hdollar
      by_cases hnext : startsExpansion rest.head? = true
      · have hnone : step ⟨.bare, some w⟩ dollar rest.head? = none := by
          simp [step, hnext, dollar, blanks, operators, ascii, hash, singleQuote, doubleQuote,
            backslash]
        rw [hnone] at hstep
        cases hstep
      · rw [Bool.not_eq_true] at hnext
        rw [lex_step (step_dollar hnext)] at h
        simp [plain, hnext, hkeeps _ h]
    by_cases hbackslash : b = backslash
    · subst hbackslash
      cases rest with
      | nil => rfl
      | cons c rest =>
        have hlost := textLength_lex_backslash h
        rw [textLength_append] at hlost
        rw [List.length_cons] at hkept
        omega
    · have hlost := size_step_lt hstep (Bool.not_eq_true _ ▸ hsimple) hdollar hbackslash
      omega


/-- Behind a word that is begun, a text is kept whole exactly if it stands for itself. -/
theorem lex_eq_of_textLength {bs : List UInt8} {tokens : List Token}
    (h : lex ⟨.bare, some w⟩ bs = some tokens)
    (hkept : w.length + bs.length ≤ textLength tokens) :
    plain bs = true ∧ tokens = [.word (w ++ unquoted bs)] := by
  have hplain := plain_of_textLength h hkept
  exact ⟨hplain, Option.some.inj (h.symm.trans (lex_of_plain hplain))⟩

end Plain

section Words

variable {w : Word}

theorem step_current {s s' : State} {b : UInt8} {next : Option UInt8} {out : List Token}
    (hcurrent : s.current = some w) (hmode : s.mode ≠ .comment)
    (h : step s b next = some (out, s')) :
    (out = [] ∧ s'.mode ≠ .comment ∧ ∃ w', s'.current = some w' ∧ w <+: w') ∨
      ∃ more, out = .word w :: more := by
  obtain ⟨mode, current⟩ := s
  obtain rfl : current = some w := hcurrent
  have hextend : ∀ b quoted, ∃ w', extend (some w) b quoted = some w' ∧ w <+: w' :=
    fun b quoted => ⟨_, rfl, List.prefix_append _ _⟩
  have htwice : ∀ b q c r, ∃ w', extend (extend (some w) b q) c r = some w' ∧ w <+: w' :=
    fun b q c r => ⟨_, rfl, (List.prefix_append _ _).trans (List.prefix_append _ _)⟩
  have hsame : ∃ w', some w = some w' ∧ w <+: w' := ⟨w, rfl, List.prefix_rfl⟩
  cases mode <;> simp only [step, reduceCtorEq, and_false, if_false] at h <;> split_ifs at h <;>
    cases h <;>
    first
    | exact (hmode rfl).elim
    | exact Or.inr ⟨_, rfl⟩
    | exact Or.inl ⟨rfl, nofun, hsame⟩
    | exact Or.inl ⟨rfl, nofun, hextend _ _⟩
    | exact Or.inl ⟨rfl, nofun, htwice _ _ _ _⟩

theorem prefix_of_lex {s : State} {bs : List UInt8} {tokens : List Token}
    (hcurrent : s.current = some w) (hmode : s.mode ≠ .comment) (h : lex s bs = some tokens) :
    ∃ w' more, tokens = .word w' :: more ∧ w <+: w' := by
  induction bs generalizing s w tokens with
  | nil =>
    obtain ⟨mode, current⟩ := s
    obtain rfl : current = some w := hcurrent
    cases mode <;> simp only [lex, finish] at h <;> cases h
    · exact ⟨w, [], rfl, List.prefix_rfl⟩
    · exact ⟨_, [], rfl, List.prefix_append _ _⟩
    · exact absurd rfl hmode
  | cons b rest ih =>
    obtain ⟨out, s', later, hstep, hlater, rfl⟩ := lex_cons_eq_some.mp h
    rcases step_current hcurrent hmode hstep with ⟨rfl, hmode', w', hw', hprefix⟩ | ⟨more, rfl⟩
    · obtain ⟨v, more, rfl, hv⟩ := ih hw' hmode' hlater
      exact ⟨v, more, rfl, hprefix.trans hv⟩
    · exact ⟨w, more ++ later, rfl, List.prefix_rfl⟩

theorem lex_word {p : List UInt8} (bs : List UInt8) (hp : p.all isSimple = true) :
    lex ⟨.bare, some w⟩ (p ++ bs) = lex ⟨.bare, some (w ++ unquoted p)⟩ bs := by
  induction p generalizing w with
  | nil => simp [unquoted]
  | cons b p ih =>
    rw [List.all_cons, Bool.and_eq_true] at hp
    rw [List.cons_append, lex_step (step_simple hp.1 _), ih hp.2]
    simp [unquoted]

theorem lex_blank (bs : List UInt8) :
    lex ⟨.bare, some w⟩ (0x20 :: bs) = (lex start bs).map fun tokens => .word w :: tokens := by
  have hstep : step ⟨.bare, some w⟩ 0x20 bs.head? = some ([.word w], start) := rfl
  rw [lex, hstep]
  rfl

theorem lex_start {b : UInt8} (bs : List UInt8) (hb : isSimple b = true) (hhash : b ≠ hash)
    (htilde : b ≠ tilde) : lex start (b :: bs) = lex ⟨.bare, some [⟨b, false⟩]⟩ bs := by
  simp only [isSimple, Bool.not_eq_true', List.contains_eq_mem, decide_eq_false_iff_not,
    List.mem_append, List.mem_cons, List.not_mem_nil, or_false, not_or] at hb
  obtain ⟨⟨hblank, hoperator⟩, hsingle, hdouble, hbackslash, hbackquote, hdollar⟩ := hb
  apply lex_step
  simp [step, start, hblank, hoperator, hsingle, hdouble, hbackslash, hbackquote, hdollar, hhash,
    htilde, extend]

theorem lex_first_word {b : UInt8} {p : List UInt8} (bs : List UInt8)
    (hp : (b :: p).all isSimple = true) (hhash : b ≠ hash) (htilde : b ≠ tilde) :
    lex start (b :: p ++ 0x20 :: bs) =
      (lex start bs).map fun tokens => .word (unquoted (b :: p)) :: tokens := by
  rw [List.all_cons, Bool.and_eq_true] at hp
  rw [List.cons_append, lex_start _ hp.1 hhash htilde, lex_word _ hp.2, lex_blank]
  rfl

end Words

section Expansion

variable {matching : Word → List (List UInt8)}

theorem unquoted_append (a b : List UInt8) : unquoted (a ++ b) = unquoted a ++ unquoted b :=
  List.map_append

theorem length_unquoted (bs : List UInt8) : (unquoted bs).length = bs.length := List.length_map _

theorem text_unquoted (bs : List UInt8) : text (unquoted bs) = bs := by
  rw [text, unquoted, List.map_map]
  exact List.map_id' bs

theorem expandPaths_ne_nil (w : Word) : expandPaths matching w ≠ [] := by
  unfold expandPaths
  split_ifs with h
  · exact h.2
  · exact List.cons_ne_nil _ _

theorem expandPaths_of_nil {w : Word} (h : matching w = []) : expandPaths matching w = [text w] := by
  rw [expandPaths, if_neg fun hmatch => hmatch.2 h]

theorem expandPaths_unquoted {bs : List UInt8} (h : isPattern (unquoted bs) = false) :
    expandPaths matching (unquoted bs) = [bs] := by
  rw [expandPaths, h, if_neg (by simp), text_unquoted]

theorem exists_word_of_flatMap {ws : List Word} {x : List UInt8}
    (h : ws.flatMap (expandPaths matching) = [x]) : ∃ w, ws = [w] ∧ expandPaths matching w = [x] := by
  cases ws with
  | nil => cases h
  | cons w ws =>
    rw [List.flatMap_cons] at h
    have hwords : expandPaths matching w ≠ [] := expandPaths_ne_nil w
    obtain ⟨y, ys, hy⟩ := List.exists_cons_of_ne_nil hwords
    rw [hy, List.cons_append, List.cons.injEq, List.append_eq_nil_iff] at h
    obtain ⟨rfl, rfl, hnone⟩ := h
    cases ws with
    | nil => exact ⟨w, rfl, hy⟩
    | cons v ws =>
      rw [List.flatMap_cons, List.append_eq_nil_iff] at hnone
      exact absurd hnone.1 (expandPaths_ne_nil v)

/-- Expansion leaves a word alone, or puts a matching name in its place. -/
theorem expandPaths_eq_singleton {w : Word} {x : List UInt8}
    (h : expandPaths matching w = [x]) :
    (isPattern w = true → matching w = []) ∧ text w = x ∨ x ∈ matching w := by
  unfold expandPaths at h
  split_ifs at h with hmatch
  · right
    rw [h]
    exact List.mem_singleton_self x
  · left
    refine ⟨fun hpattern => not_not.mp fun hne => hmatch ⟨hpattern, hne⟩, List.singleton_inj.mp h⟩

theorem eq_singleton_of_simpleCommand {tokens : List Token} {w : Word}
    (h : simpleCommand tokens = some [w]) : tokens = [.word w] := by
  cases tokens with
  | nil => cases h
  | cons t tokens =>
    cases t with
    | operator b => cases h
    | word v =>
      obtain ⟨ws, hws, hcons⟩ := Option.map_eq_some_iff.mp h
      obtain ⟨rfl, rfl⟩ := List.cons.inj hcons
      cases tokens with
      | nil => rfl
      | cons t tokens =>
        cases t with
        | operator b => cases hws
        | word u =>
          obtain ⟨_, _, hnil⟩ := Option.map_eq_some_iff.mp hws
          cases hnil

end Expansion

end Evi7688.Library.ShellWords
