/- Evi7688/Lcdsvc/WriteFailures
   digest: The GPIO writes that a command needs, which of them succeed, and what the client is told. -/

import Evi7688.Lcdsvc.Service
import Evi7688.Library.FallibleOperations

set_option autoImplicit false
set_option relaxedAutoImplicit false

namespace Evi7688.Lcdsvc.WriteFailures

open Evi7688.Library.Bytes (ascii)
open Evi7688.Library.CharacterPanel
open Evi7688.Library.FallibleOperations
open LcdHw
open Service

/-- What a command asks the panel to receive. -/
def requested : Command → List Pulse
  | .init => [0x30, 0x30, 0x08, 0x01, 0x06, 0x0C].map fun v => ⟨false, v⟩
  | .clear => [⟨false, 0x01⟩]
  | .home => [⟨false, 0x02⟩]
  | .instr v => [⟨false, v⟩]
  | .put text => text.map fun u => ⟨true, u⟩
  | .ddram addr => [⟨false, 0x80 ||| (addr &&& 0x7F)⟩]

def busWrites (val : UInt8) (is : List (Fin 8)) : List (Line × Bool) :=
  is.map fun i => (.d i, val.toNat.testBit i)

/-- The writes that bring one byte to the panel. -/
def byteWrites (p : Pulse) : List (Line × Bool) :=
  [(.rs, p.rs), (.rw, false)] ++ busWrites p.bus dataLines ++ [(.en, true), (.en, false)]

/-- The lines are lowered once before the panel is initialised. -/
def lowWrites : Command → List (Line × Bool)
  | .init => allLines.map fun l => (l, false)
  | _ => []

def neededWrites (c : Command) : List (Line × Bool) :=
  lowWrites c ++ (requested c).flatMap byteWrites

/-- The levels of the lines after all successful writes so far. -/
def levels (h : Host) : Line → Bool := settle (fun _ => false) (lineWrites h.events)

/-- Every needed write has succeeded, and the panel has latched the requested bytes. -/
structure CarriedOut (c : Command) (h h' : Host) : Prop where
  written : lineWrites h'.events = lineWrites h.events ++ neededWrites c
  latched : h'.received = h.received ++ requested c

/-- `OK` for a command that was carried out, and an `ERR` line in every other case. -/
structure HonestAnswer (env : SysfsEnv) (s : Session) (line : List UInt8) : Prop where
  ok : (handleLine env s line).replies = s.replies ++ [okReply] →
    ∃ c, named line = some c ∧ CarriedOut c s.host (handleLine env s line).host
  err : (¬ ∃ c, named line = some c ∧ CarriedOut c s.host (handleLine env s line).host) →
    ∃ msg, ascii "ERR " <+: msg ∧ (handleLine env s line).replies = s.replies ++ [msg]

/-- The handle of a line while a command is executed: `INIT` opens all of them again. -/
def handleFor (env : SysfsEnv) (h : Host) (c : Command) (l : Line) : Int :=
  match c with
  | .init => env.openResult (h.events.length + 22 + allLines.idxOf l)
  | _ => h.g.fd l

/-- The moment of the first write: after the exports, directions and opens of `INIT`. -/
def firstWrite (h : Host) (c : Command) : Nat :=
  match c with
  | .init => h.events.length + 33
  | _ => h.events.length

/-- Every needed line has a handle, every needed write succeeds in its turn, and the panel is not
initialised with the enable line left high. -/
structure Unhindered (env : SysfsEnv) (h : Host) (c : Command) : Prop where
  handles : ∀ x ∈ neededWrites c, 0 ≤ handleFor env h c x.1
  writes : ∀ k < (neededWrites c).length, env.writeOk (firstWrite h c + k) = true
  enLow : c = .init → levels h .en = false

section Writes

variable (env : SysfsEnv)

def Writable (h : Host) (x : Line × Bool) : Prop :=
  0 ≤ h.g.fd x.1 ∧ env.writeOk h.events.length = true

variable {env}

theorem gpioWriteFd_writable {h : Host} {x : Line × Bool} (ok : Writable env h x) :
    gpioWriteFd env x.1 x.2 h = (0, h.emit (.write x.1 x.2 true)) := by
  obtain ⟨hfd, hwrite⟩ := ok
  simp [gpioWriteFd, hfd, hwrite]

theorem gpioWriteFd_refused {h : Host} {x : Line × Bool} (failed : ¬ Writable env h x) :
    gpioWriteFd env x.1 x.2 h = (-1, h.emit (.write x.1 x.2 false)) := by
  have hok : (decide (0 ≤ h.g.fd x.1) && env.writeOk h.events.length) = false := by
    rw [← Bool.not_eq_true, Bool.and_eq_true, decide_eq_true_eq]
    exact failed
  simp [gpioWriteFd, hok]

variable (env)

theorem gpioWriteFd_g (l : Line) (val : Bool) (h : Host) : (gpioWriteFd env l val h).2.g = h.g :=
  rfl

theorem length_gpioWriteFd (l : Line) (val : Bool) (h : Host) :
    (gpioWriteFd env l val h).2.events.length = h.events.length + 1 :=
  List.length_append

/-- Writes through the handles of the lines, as operations that may fail. -/
def gpioWrites : Operations Host (Line × Bool) where
  perform h x := (gpioWriteFd env x.1 x.2 h).2
  ready := Writable env
  done h := lineWrites h.events
  done_ready := by
    intro h x ok
    rw [gpioWriteFd_writable ok]
    exact lineWrites_append _ _
  done_refused := by
    intro h x failed
    rw [gpioWriteFd_refused failed]
    exact (lineWrites_append _ _).trans (List.append_nil _)

theorem reaches_iff (h : Host) (ws : List (Line × Bool)) :
    Reaches (gpioWrites env) h ws ↔ (∀ x ∈ ws, 0 ≤ h.g.fd x.1) ∧
      ∀ k < ws.length, env.writeOk (h.events.length + k) = true := by
  induction ws generalizing h with
  | nil => simp [Reaches]
  | cons x ws ih =>
    have hstep : Reaches (gpioWrites env) h (x :: ws) ↔
        Writable env h x ∧ Reaches (gpioWrites env) (gpioWriteFd env x.1 x.2 h).2 ws := Iff.rfl
    rw [hstep, ih, gpioWriteFd_g, length_gpioWriteFd, Writable, List.forall_mem_cons,
      List.length_cons]
    constructor
    · rintro ⟨⟨hfd, hnow⟩, hhandles, hlater⟩
      refine ⟨⟨hfd, hhandles⟩, fun k hk => ?_⟩
      cases k with
      | zero => exact hnow
      | succ k =>
        have hwrite := hlater k (by omega)
        rwa [Nat.add_assoc, Nat.add_comm 1 k] at hwrite
    · rintro ⟨⟨hfd, hhandles⟩, hwrites⟩
      refine ⟨⟨hfd, hwrites 0 (by omega)⟩, hhandles, fun k hk => ?_⟩
      have hwrite := hwrites (k + 1) (by omega)
      rwa [Nat.add_comm k 1, ← Nat.add_assoc] at hwrite

theorem attempts_gpioWriteFd (l : Line) (val : Bool) :
    Attempts (gpioWrites env) (fun h => (gpioWriteFd env l val h).2) [(l, val)] :=
  attempts_perform (l, val)

theorem attempts_setDataBusFrom (val : UInt8) (is : List (Fin 8)) :
    Attempts (gpioWrites env) (fun h => (setDataBusFrom env val is h).2) (busWrites val is) := by
  induction is with
  | nil => exact attempts_nothing
  | cons i is ih =>
    apply ih.cons
    · intro h ok
      have hwrite : gpioWriteFd env (.d i) (val.toNat.testBit i) h =
          (0, h.emit (.write (.d i) (val.toNat.testBit i) true)) := gpioWriteFd_writable ok
      have hfd : 0 ≤ h.g.fd (.d i) := ok.1
      show (setDataBusFrom env val (i :: is) h).2 =
        (setDataBusFrom env val is (gpioWriteFd env (.d i) (val.toNat.testBit i) h).2).2
      simp only [setDataBusFrom, if_pos hfd, hwrite]
      rfl
    · intro h failed
      by_cases hfd : 0 ≤ h.g.fd (.d i)
      · have hwrite : gpioWriteFd env (.d i) (val.toNat.testBit i) h =
            (-1, h.emit (.write (.d i) (val.toNat.testBit i) false)) := gpioWriteFd_refused failed
        have hend : (setDataBusFrom env val (i :: is) h).2 =
            h.emit (.write (.d i) (val.toNat.testBit i) false) := by
          simp only [setDataBusFrom, if_pos hfd, hwrite]
          rfl
        refine ⟨[], Nat.zero_le _, ?_⟩
        show lineWrites (setDataBusFrom env val (i :: is) h).2.events = _
        rw [hend]
        exact lineWrites_append _ _
      · have hskip : setDataBusFrom env val (i :: is) h = setDataBusFrom env val is h := by
          simp only [setDataBusFrom, if_neg hfd]
        obtain ⟨more, hmore, hdone⟩ := ih.bounded h
        exact ⟨more, hmore, by rw [hskip, hdone]⟩

theorem attempts_pulseEn :
    Attempts (gpioWrites env) (fun h => (pulseEn env h).2) [(.en, true), (.en, false)] := by
  apply (attempts_gpioWriteFd env .en false).cons
  · intro h ok
    have hup : gpioWriteFd env .en true h = (0, h.emit (.write .en true true)) :=
      gpioWriteFd_writable ok
    show (pulseEn env h).2 = (gpioWriteFd env .en false (gpioWriteFd env .en true h).2).2
    simp only [pulseEn, hup, ne_eq, not_true_eq_false, if_false]
    split_ifs
    · rfl
    · rfl
  · intro h failed
    have hup : gpioWriteFd env .en true h = (-1, h.emit (.write .en true false)) :=
      gpioWriteFd_refused failed
    have hend : (pulseEn env h).2 = h.emit (.write .en true false) := by
      simp only [pulseEn, hup]
      rfl
    refine ⟨[], Nat.zero_le _, ?_⟩
    show lineWrites (pulseEn env h).2.events = _
    rw [hend]
    exact lineWrites_append _ _

theorem attempts_lcdWrite (p : Pulse) :
    Attempts (gpioWrites env) (fun h => (lcdWrite env p.rs p.bus h).2) (byteWrites p) := by
  have hcontrol := (attempts_gpioWriteFd env .rs p.rs).comp (attempts_gpioWriteFd env .rw false)
  have hbus := hcontrol.comp (attempts_setDataBusFrom env p.bus dataLines)
  exact hbus.comp (attempts_pulseEn env)

theorem attempts_lcdWrites (ps : List Pulse) :
    Attempts (gpioWrites env) (fun h => ps.foldl (fun h p => (lcdWrite env p.rs p.bus h).2) h)
      (ps.flatMap byteWrites) :=
  attempts_foldl (attempts_lcdWrite env) ps

end Writes

section Commands

variable (env : SysfsEnv)

/-- `lcd_hw_init` up to its first write through a handle. -/
def opened (h : Host) : Host :=
  let h := { h with g := ⟨h.pins, fun _ => 0⟩ }
  let h := allLines.foldl (fun h l => h.emit (.export (h.pins.pin l))) h
  let h := allLines.foldl (fun h l => h.emit (.direction (h.pins.pin l) true)) h
  allLines.foldl (fun h l => gpioOpenHandle env l h) h

/-- The daemon when a command makes its first write. -/
def start (c : Command) (h : Host) : Host :=
  match c with
  | .init => opened env (loadPinsFromUci env h)
  | _ => h

/-- What a command does from its first write on. -/
def performed (c : Command) (h : Host) : Host :=
  (requested c).foldl (fun h p => (lcdWrite env p.rs p.bus h).2)
    ((lowWrites c).foldl (fun h x => (gpioWriteFd env x.1 x.2 h).2) h)

theorem runCommand_eq (c : Command) (h : Host) :
    runCommand env c h = performed env c (start env c h) := by
  cases c with
  | put text =>
    show text.foldl (fun h u => (lcdWriteData env u h).2) h = _
    simp only [performed, requested, lowWrites, start, List.foldl_nil, List.foldl_map]
    rfl
  | init =>
    simp only [performed, requested, lowWrites, List.foldl_map]
    rfl
  | _ => rfl

theorem attempts_performed (c : Command) :
    Attempts (gpioWrites env) (performed env c) (neededWrites c) := by
  have hlow : Attempts (gpioWrites env)
      (fun h => (lowWrites c).foldl (fun h x => (gpioWriteFd env x.1 x.2 h).2) h)
      ((lowWrites c).flatMap fun x => [x]) :=
    attempts_foldl (fun x => attempts_gpioWriteFd env x.1 x.2) (lowWrites c)
  rw [List.flatMap_singleton'] at hlow
  exact hlow.comp (attempts_lcdWrites env (requested c))

theorem emitAll_eq (event : LcdPins → Line → GpioEvent) (ls : List Line) (h : Host) :
    ls.foldl (fun h l => h.emit (event h.pins l)) h =
      { h with events := h.events ++ ls.map (event h.pins) } := by
  induction ls generalizing h with
  | nil => simp
  | cons l ls ih =>
    rw [List.foldl_cons, ih]
    simp [Host.emit]

theorem gpioOpenHandle_fd (l k : Line) (h : Host) :
    (gpioOpenHandle env l h).g.fd k =
      if k = l then env.openResult h.events.length else h.g.fd k := by
  simp only [gpioOpenHandle, Host.emit, Function.update_apply]

theorem length_gpioOpenHandle (l : Line) (h : Host) :
    (gpioOpenHandle env l h).events.length = h.events.length + 1 :=
  List.length_append

theorem length_openAll (ls : List Line) (h : Host) :
    (ls.foldl (fun h l => gpioOpenHandle env l h) h).events.length =
      h.events.length + ls.length := by
  induction ls generalizing h with
  | nil => rfl
  | cons l ls ih =>
    rw [List.foldl_cons, ih, length_gpioOpenHandle, List.length_cons]
    omega

theorem lineWrites_openAll (ls : List Line) (h : Host) :
    lineWrites (ls.foldl (fun h l => gpioOpenHandle env l h) h).events = lineWrites h.events := by
  induction ls generalizing h with
  | nil => rfl
  | cons l ls ih =>
    rw [List.foldl_cons, ih]
    exact (lineWrites_append _ _).trans (List.append_nil _)

theorem openAll_fd_of_notMem {ls : List Line} {k : Line} (hk : k ∉ ls) (h : Host) :
    (ls.foldl (fun h l => gpioOpenHandle env l h) h).g.fd k = h.g.fd k := by
  induction ls generalizing h with
  | nil => rfl
  | cons l ls ih =>
    rw [List.mem_cons, not_or] at hk
    rw [List.foldl_cons, ih hk.2, gpioOpenHandle_fd, if_neg hk.1]

theorem openAll_fd {ls : List Line} (distinct : ls.Nodup) {k : Line} (hk : k ∈ ls) (h : Host) :
    (ls.foldl (fun h l => gpioOpenHandle env l h) h).g.fd k =
      env.openResult (h.events.length + ls.idxOf k) := by
  induction ls generalizing h with
  | nil => cases hk
  | cons l ls ih =>
    rw [List.nodup_cons] at distinct
    rw [List.foldl_cons]
    by_cases heq : k = l
    · subst heq
      rw [openAll_fd_of_notMem env distinct.1, gpioOpenHandle_fd, if_pos rfl, List.idxOf_cons_self]
      rfl
    · have hmem : k ∈ ls := (List.mem_cons.mp hk).resolve_left heq
      rw [ih distinct.2 hmem, length_gpioOpenHandle, List.idxOf_cons_ne _ (Ne.symm heq)]
      congr 1
      omega

theorem mem_allLines (l : Line) : l ∈ allLines := by
  cases l with
  | d i =>
    apply List.mem_append_right
    exact List.mem_map_of_mem (List.mem_finRange i)
  | _ => decide

theorem lineWrites_of_silent {event : Line → GpioEvent} (silent : ∀ l, lineWrites [event l] = [])
    (ls : List Line) : lineWrites (ls.map event) = [] := by
  induction ls with
  | nil => rfl
  | cons l ls ih =>
    rw [List.map_cons, ← List.singleton_append, lineWrites_append, silent, ih]
    rfl

theorem opened_eq (h : Host) :
    opened env h = allLines.foldl (fun h l => gpioOpenHandle env l h)
      { h with
        g := ⟨h.pins, fun _ => 0⟩
        events := h.events ++ (allLines.map fun l => .export (h.pins.pin l)) ++
          allLines.map fun l => .direction (h.pins.pin l) true } := by
  rw [opened, emitAll_eq fun pins l => .export (pins.pin l)]
  rw [emitAll_eq fun pins l => .direction (pins.pin l) true]

theorem lineWrites_opened (h : Host) : lineWrites (opened env h).events = lineWrites h.events := by
  rw [opened_eq, lineWrites_openAll, lineWrites_append, lineWrites_append,
    lineWrites_of_silent fun _ => rfl, lineWrites_of_silent fun _ => rfl, List.append_nil,
    List.append_nil]

theorem length_opened (h : Host) : (opened env h).events.length = h.events.length + 33 := by
  rw [opened_eq, length_openAll, List.length_append, List.length_append, List.length_map,
    List.length_map]
  rfl

theorem opened_fd (h : Host) (l : Line) :
    (opened env h).g.fd l = env.openResult (h.events.length + 22 + allLines.idxOf l) := by
  rw [opened_eq, openAll_fd env (by decide) (mem_allLines l), List.length_append,
    List.length_append, List.length_map, List.length_map]
  rfl

theorem lineWrites_start (c : Command) (h : Host) :
    lineWrites (start env c h).events = lineWrites h.events := by
  cases c with
  | init => exact lineWrites_opened env (loadPinsFromUci env h)
  | _ => rfl

theorem length_start (c : Command) (h : Host) :
    (start env c h).events.length = firstWrite h c := by
  cases c with
  | init => exact length_opened env (loadPinsFromUci env h)
  | _ => rfl

theorem start_fd (c : Command) (h : Host) (l : Line) :
    (start env c h).g.fd l = handleFor env h c l := by
  cases c with
  | init => exact opened_fd env (loadPinsFromUci env h) l
  | _ => rfl

/-- A command makes all the writes it needs exactly when each has a handle and succeeds. -/
theorem written_iff (c : Command) (h : Host) :
    lineWrites (runCommand env c h).events = lineWrites h.events ++ neededWrites c ↔
      (∀ x ∈ neededWrites c, 0 ≤ handleFor env h c x.1) ∧
        ∀ k < (neededWrites c).length, env.writeOk (firstWrite h c + k) = true := by
  have hdone := (attempts_performed env c).done_iff (start env c h)
  rw [reaches_iff, length_start] at hdone
  simp only [start_fd] at hdone
  rw [← hdone, runCommand_eq, ← lineWrites_start env c h]
  rfl

end Commands

section Latching

theorem lineWrites_busEvents (val : UInt8) (is : List (Fin 8)) :
    lineWrites (busEvents val is) = busWrites val is := by
  induction is with
  | nil => rfl
  | cons i is ih => exact congrArg (List.cons _) ih

theorem sample_byteWrites (level : Line → Bool) (p : Pulse) :
    sample panelWiring level (byteWrites p) = [p] := by
  have hwrites : byteWrites p = lineWrites (byteEvents p.rs p.bus) := by
    rw [byteEvents, lineWrites_append, lineWrites_append, lineWrites_busEvents]
    rfl
  rw [hwrites]
  exact sample_byteEvents level p.rs p.bus

theorem sample_bytes (level : Line → Bool) (ps : List Pulse) :
    sample panelWiring level (ps.flatMap byteWrites) = ps := by
  induction ps generalizing level with
  | nil => rfl
  | cons p ps ih =>
    rw [List.flatMap_cons, sample_append, sample_byteWrites, ih]
    rfl

/-- Lowering the lines latches something only if the enable line was high. -/
theorem sample_lowWrites (level : Line → Bool) (c : Command) :
    sample panelWiring level (lowWrites c) = [] ↔ (c = .init → level .en = false) := by
  cases c with
  | init =>
    have hsplit : lowWrites .init =
        [(.rs, false), (.rw, false)] ++ (.en, false) :: dataLines.map fun i => (.d i, false) := rfl
    have hcontrol : ∀ x ∈ [(Line.rs, false), (.rw, false)], x.1 ≠ panelWiring.en := by
      decide
    have hdata : ∀ x ∈ dataLines.map fun i => (Line.d i, false), x.1 ≠ panelWiring.en := by
      simp [panelWiring]
    have hen : settle level [(.rs, false), (.rw, false)] .en = level .en := rfl
    rw [hsplit, sample_append, sample_quiet _ _ hcontrol, List.nil_append, sample,
      sample_quiet _ _ hdata, List.append_nil, hen]
    simp [panelWiring]
  | _ => simp [lowWrites, sample]

theorem latched_iff {c : Command} {h h' : Host}
    (written : lineWrites h'.events = lineWrites h.events ++ neededWrites c) :
    h'.received = h.received ++ requested c ↔ (c = .init → levels h .en = false) := by
  have hreceived : h'.received =
      h.received ++ (sample panelWiring (levels h) (lowWrites c) ++ requested c) := by
    rw [Host.received, written, neededWrites, sample_append, sample_append, sample_bytes]
    rfl
  rw [hreceived, List.append_cancel_left_eq, List.append_left_eq_self, sample_lowWrites]

end Latching

theorem carriedOut_iff (env : SysfsEnv) (c : Command) (h : Host) :
    CarriedOut c h (runCommand env c h) ↔ Unhindered env h c := by
  constructor
  · rintro ⟨written, latched⟩
    obtain ⟨handles, writes⟩ := (written_iff env c h).mp written
    exact ⟨handles, writes, (latched_iff written).mp latched⟩
  · rintro ⟨handles, writes, enLow⟩
    have written := (written_iff env c h).mpr ⟨handles, writes⟩
    exact ⟨written, (latched_iff written).mpr enLow⟩

theorem carriedOut_of_sound {env : SysfsEnv} {h : Host} (sound : GpioSound env h) {c : Command}
    (initialised : c ≠ .init) : CarriedOut c h (runCommand env c h) := by
  have hhandle : ∀ l, handleFor env h c l = h.g.fd l := by
    intro l
    cases c with
    | init => exact absurd rfl initialised
    | _ => rfl
  refine (carriedOut_iff env c h).mpr ⟨fun x _ => ?_, fun k _ => sound.writes _, ?_⟩
  · rw [hhandle]
    exact sound.handles x.1
  · exact fun hinit => absurd hinit initialised

/-- The answer is honest exactly when nothing hinders the command of the line, if it has one. -/
theorem honestAnswer_iff (env : SysfsEnv) (s : Session) (line : List UInt8) :
    HonestAnswer env s line ↔ ∀ c, named line = some c → Unhindered env s.host c := by
  cases hd : dispatch line with
  | error reply =>
    have hreplies : (handleLine env s line).replies = s.replies ++ [reply] := by
      rw [handleLine_of_error env s hd]
    have herr : ascii "ERR " <+: reply := err_of_dispatch hd
    constructor
    · intro _ c hc
      rw [named_of_error hd] at hc
      cases hc
    · intro _
      constructor
      · intro hok
        rw [hreplies] at hok
        obtain rfl := List.singleton_injective (List.append_cancel_left hok)
        exact absurd herr (by decide)
      · intro _
        exact ⟨reply, herr, hreplies⟩
  | ok c =>
    have hnamed : named line = some c := named_of_ok hd
    have hreplies : (handleLine env s line).replies = s.replies ++ [okReply] := by
      rw [handleLine_of_ok env s hd]
    have hhost : (handleLine env s line).host = runCommand env c s.host := by
      rw [handleLine_of_ok env s hd]
    constructor
    · intro h c' hc'
      obtain ⟨c'', hc'', hcarried⟩ := h.ok hreplies
      obtain rfl : c' = c'' := Option.some.inj (hc'.symm.trans hc'')
      obtain rfl : c = c' := Option.some.inj (hnamed.symm.trans hc')
      rw [hhost] at hcarried
      exact (carriedOut_iff env c s.host).mp hcarried
    · intro h
      have hcarried := (carriedOut_iff env c s.host).mpr (h c hnamed)
      rw [← hhost] at hcarried
      constructor
      · exact fun _ => ⟨c, hnamed, hcarried⟩
      · exact fun hno => absurd ⟨c, hnamed, hcarried⟩ hno

/-- All lines but the lowest data line have a handle. -/
def missingD0 : Host :=
  { openHost with g := ⟨openHost.pins, Function.update openHost.g.fd (.d 0) (-1)⟩ }

/-- Without that line the panel latches `0x00` for `CLEAR`, and the client reads `OK`. -/
theorem not_always_honestAnswer :
    ¬ ∀ (env : SysfsEnv) (s : Session) (line : List UInt8), HonestAnswer env s line := by
  intro h
  obtain ⟨c, hc, hcarried⟩ := (h openEnv ⟨missingD0, [], []⟩ (ascii "CLEAR")).ok rfl
  obtain rfl : .clear = c := Option.some.inj hc
  have hlatched : (handleLine openEnv ⟨missingD0, [], []⟩ (ascii "CLEAR")).host.received =
      [⟨false, 0x00⟩] := by
    decide
  have hrequested := hcarried.latched
  rw [hlatched] at hrequested
  revert hrequested
  decide

end Evi7688.Lcdsvc.WriteFailures
