/- Evi7688/Lcdsvc/Display
   digest: What the panel displays over the life of the daemon, whatever it displayed before. -/

import Evi7688.Library.CharacterPicture
import Evi7688.Lcdsvc.PanelCursor

set_option autoImplicit false
set_option relaxedAutoImplicit false

namespace Evi7688.Lcdsvc.Display

open Evi7688.Library.Bytes (ascii)
open Evi7688.Library.CharacterPanel
open Evi7688.Library.CharacterPicture
open LcdHw
open Service
open WriteFailures
open OpenHandles (started)
open PanelCursor (SysfsSound openEnv_sound Working working_runCommand carriedOut_of_working)

/-- The panel when the daemon starts: what it has latched since power-on, and the levels at which
its lines were left. -/
structure Board where
  history : List Pulse
  level : Line → Bool

def Board.latched (b : Board) (h : Host) : List Pulse :=
  sample panelWiring b.level (lineWrites h.events)

def Board.controller (b : Board) (h : Host) : Controller :=
  (Controller.powerOn.pulses b.history).pulses (b.latched h)

section Meaning

variable (beside : Bool → Fin 128 → Fin 128)

local instance cells : NeZero 128 := ⟨by decide⟩

/-- What each command is for. After an instruction for the 4-bit interface, which the daemon does
not speak, nothing can be said until the next `INIT`. -/
def shows : Option Picture → Command → Option Picture
  | _, .init => some .fresh
  | o, .clear =>
    o.map fun d => { d with forward := true, shift := 0, cursor := some 0, text := fun _ => 0x20 }
  | o, .home => o.map fun d => { d with shift := 0, cursor := some 0 }
  | o, .instr v => if Narrows v then none else o.map fun d => d.receive beside (instruction v)
  | o, .put text => o.map fun d => text.foldl (fun d u => d.receive beside ⟨true, u⟩) d
  | o, .ddram addr => o.map fun d => { d with cursor := some (Fin.ofNat 128 addr.toNat) }

/-- The panel is in step with the daemon and shows the picture, if there is anything to say. -/
def Shown (start : Picture) (c : Controller) (o : Option Picture) : Prop :=
  ∀ p, o = some p → c.eightBit = true ∧ c.pending = none ∧ picture beside start c = p

end Meaning

/-- The daemon after connections, each of which delivered its pieces. -/
def serve (env : SysfsEnv) (connections : List (List (List UInt8))) : Session :=
  connections.foldl (fun d pieces => handleClient env pieces d) ⟨started env, [], []⟩

section Latching

theorem settle_low (level : Line → Bool) (ls : List Line) (l : Line) :
    settle level (ls.map fun l => (l, false)) l = if l ∈ ls then false else level l := by
  induction ls generalizing level with
  | nil => rfl
  | cons k ls ih =>
    have hstep : settle level ((k :: ls).map fun l => (l, false)) =
        settle (Function.update level k false) (ls.map fun l => (l, false)) := rfl
    rw [hstep, ih]
    by_cases hl : l = k
    · subst hl
      simp
    · simp [hl]

theorem settle_lowWrites_init (level : Line → Bool) :
    settle level (lowWrites .init) = fun _ => false := by
  funext l
  exact (settle_low level allLines l).trans (if_pos (mem_allLines l))

theorem sample_lowWrites_low : sample panelWiring (fun _ => false) (lowWrites .init) = [] :=
  (sample_lowWrites _ _).mpr fun _ => rfl

/-- What was left on the lines adds a pulse at most, before the first one of the daemon. -/
theorem latched_eq (b : Board) {h : Host} (begins : lowWrites .init <+: lineWrites h.events) :
    b.latched h = sample panelWiring b.level (lowWrites .init) ++ h.received := by
  obtain ⟨more, hmore⟩ := begins
  rw [Board.latched, Host.received, ← hmore, sample_append, sample_append, settle_lowWrites_init,
    settle_lowWrites_init, sample_lowWrites_low, List.nil_append]

end Latching

section Commands

variable {beside : Bool → Fin 128 → Fin 128} {start : Picture}

theorem picture_pulses {c : Controller} (hwidth : c.eightBit = true) (hpending : c.pending = none)
    {ps : List Pulse} (wide : ∀ p ∈ ps, p.rs = false → ¬ Narrows p.bus) :
    (c.pulses ps).eightBit = true ∧ (c.pulses ps).pending = none ∧
      picture beside start (c.pulses ps) =
        ps.foldl (Picture.receive beside) (picture beside start c) := by
  obtain ⟨w, p, r⟩ := c
  obtain rfl : w = true := hwidth
  obtain rfl : p = none := hpending
  rw [pulses_wide wide]
  exact ⟨rfl, rfl, picture_mk start _ _ _ _⟩

theorem Shown.pulses {c : Controller} {o : Option Picture} (h : Shown beside start c o)
    {ps : List Pulse} (wide : ∀ p ∈ ps, p.rs = false → ¬ Narrows p.bus) {f : Picture → Picture}
    (means : ∀ d, ps.foldl (Picture.receive beside) d = f d) :
    Shown beside start (c.pulses ps) (o.map f) := by
  intro p hp
  obtain ⟨d, rfl, rfl⟩ := Option.map_eq_some_iff.mp hp
  obtain ⟨hwidth, hpending, hpicture⟩ := h d rfl
  obtain ⟨hwidth', hpending', hpicture'⟩ := @picture_pulses beside start _ hwidth hpending _ wide
  refine ⟨hwidth', hpending', ?_⟩
  rw [hpicture', hpicture, means]

theorem shown_init (c : Controller) :
    Shown beside start (c.pulses (requested .init)) (some .fresh) := by
  rintro p hp
  obtain rfl := Option.some.inj hp
  obtain ⟨more, hmore⟩ := functionSets_then c (v := 0x08) rfl (by decide)
  have hsplit : requested .init = bytes [0x30, 0x30, 0x08] ++ bytes [0x01, 0x06, 0x0C] := rfl
  have hrest : ∀ p ∈ bytes [0x01, 0x06, 0x0C], p.rs = false → ¬ Narrows p.bus := by decide
  rw [hsplit, Controller.pulses_append, hmore, pulses_wide hrest]
  exact ⟨rfl, rfl, (picture_mk start _ _ _ _).trans (receive_reset _)⟩

theorem receive_ddram (addr : UInt8) (d : Picture) :
    d.receive beside (instruction (0x80 ||| (addr &&& 0x7F))) =
      { d with cursor := some (Fin.ofNat 128 addr.toNat) } := by
  have table : ∀ n : Fin 256,
      (0x80 ||| (UInt8.ofNat n.val &&& 0x7F) : UInt8).toNat.testBit 7 = true ∧
        Fin.ofNat 128 (0x80 ||| (UInt8.ofNat n.val &&& 0x7F) : UInt8).toNat =
          Fin.ofNat 128 n.val := by
    decide +kernel
  obtain ⟨hbit, haddress⟩ := table ⟨addr.toNat, addr.toNat_lt⟩
  simp only [UInt8.ofNat_toNat] at hbit haddress
  simp only [Picture.receive, instruction, hbit, haddress, Bool.false_eq_true, if_false, if_true]

theorem not_narrows_ddram (addr : UInt8) : ¬ Narrows (0x80 ||| (addr &&& 0x7F)) := by
  have table : ∀ n : Fin 256, ¬ Narrows (0x80 ||| (UInt8.ofNat n.val &&& 0x7F)) := by
    decide +kernel
  simpa using table ⟨addr.toNat, addr.toNat_lt⟩

/-- What one command asks for is what the panel shows after it. -/
theorem Shown.command {c : Controller} {o : Option Picture} (h : Shown beside start c o)
    (command : Command) :
    Shown beside start (c.pulses (requested command)) (shows beside o command) := by
  cases command with
  | init => exact shown_init c
  | clear => exact h.pulses (by decide) fun _ => rfl
  | home => exact h.pulses (by decide) fun _ => rfl
  | instr v =>
    by_cases hnarrow : Narrows v
    · intro p hp
      rw [shows, if_pos hnarrow] at hp
      cases hp
    · rw [shows, if_neg hnarrow]
      exact h.pulses (by simpa [requested] using hnarrow) fun _ => rfl
  | put text =>
    apply h.pulses (by simp [requested])
    intro d
    exact List.foldl_map
  | ddram addr =>
    exact h.pulses (by simpa [requested] using not_narrows_ddram addr) fun d => receive_ddram addr d

theorem Shown.commands (commands : List Command) {c : Controller} {o : Option Picture}
    (h : Shown beside start c o) :
    Shown beside start (c.pulses (commands.flatMap requested))
      (commands.foldl (shows beside) o) := by
  induction commands generalizing c o with
  | nil => exact h
  | cons command commands ih =>
    rw [List.flatMap_cons, Controller.pulses_append, List.foldl_cons]
    exact ih (h.command command)

end Commands

section Service

variable {env : SysfsEnv} {beside : Bool → Fin 128 → Fin 128} {start : Picture} {b : Board}

/-- A daemon whose GPIO works and has initialised the panel, and what the panel shows. -/
structure Serving (beside : Bool → Fin 128 → Fin 128) (start : Picture) (b : Board) (h : Host)
    (o : Option Picture) : Prop where
  working : Working h
  begins : lowWrites .init <+: lineWrites h.events
  shown : Shown beside start (b.controller h) o

variable (sound : SysfsSound env)

include sound

theorem Serving.command {h : Host} {o : Option Picture} (serving : Serving beside start b h o)
    (c : Command) : Serving beside start b (runCommand env c h) (shows beside o c) := by
  have hcarried := carriedOut_of_working sound serving.working c
  have hbegins : lowWrites .init <+: lineWrites (runCommand env c h).events := by
    rw [hcarried.written]
    exact serving.begins.trans (List.prefix_append _ _)
  refine ⟨working_runCommand sound serving.working c, hbegins, ?_⟩
  have hpulses : b.controller (runCommand env c h) =
      (b.controller h).pulses (requested c) := by
    rw [Board.controller, latched_eq b hbegins, hcarried.latched, ← List.append_assoc,
      ← latched_eq b serving.begins, Controller.pulses_append]
    rfl
  rw [hpulses]
  exact serving.shown.command c

theorem Serving.lines (lines : List (List UInt8)) {d : Session} {o : Option Picture}
    (serving : Serving beside start b d.host o) :
    Serving beside start b (lines.foldl (handleLine env) d).host
      ((lines.filterMap named).foldl (shows beside) o) := by
  induction lines generalizing d o with
  | nil => exact serving
  | cons line lines ih =>
    rw [List.foldl_cons, List.filterMap_cons]
    cases hd : dispatch line with
    | error reply =>
      rw [handleLine_of_error env d hd, named_of_error hd]
      exact ih serving
    | ok c =>
      rw [handleLine_of_ok env d hd, named_of_ok hd]
      exact ih (serving.command sound c)

theorem serving_started : Serving beside start b (started env) (some .fresh) := by
  have hcarried := carriedOut_of_working sound (h := ⟨⟨⟨fun _ => 0, 0⟩, fun _ => 0⟩,
    ⟨fun _ => 0, 0⟩, []⟩) ⟨fun _ => le_rfl, rfl⟩ .init
  have hbegins : lowWrites .init <+: lineWrites (started env).events := by
    rw [started, hcarried.written]
    exact List.prefix_append _ _
  refine ⟨working_runCommand sound ⟨fun _ => le_rfl, rfl⟩ .init, hbegins, ?_⟩
  have hreceived : (started env).received = requested .init := hcarried.latched
  rw [Board.controller, latched_eq b hbegins, hreceived, Controller.pulses_append]
  exact shown_init _

end Service

end Evi7688.Lcdsvc.Display
