/- Evi7688/Libevi/Threads
   digest: Threads that call the caption library at once, down to the single GPIO operation. -/

import Evi7688.Libevi.HalTrace
import Evi7688.Libevi.InterfaceWidth
import Evi7688.Library.Monitor
import Mathlib.Data.List.Induction

set_option autoImplicit false
set_option relaxedAutoImplicit false

namespace Evi7688.Libevi.Threads

open Evi7688.Library.CharacterPanel
open Evi7688.Library.Monitor
open Hal
open Caption
open Screens
open HalTrace (Ensures requested initNibbles initBytes)

/-- Everything the threads share: the caches, the flag of the HAL and the GPIO operations so far. -/
structure Shared where
  statics : Statics
  inited : Bool
  trace : List GpioOp

def Shared.of (statics : Statics) (hal : HalState) : Shared :=
  ⟨statics, hal.inited, hal.bus.flatMap BusOp.gpioOps⟩

def emits (ops : List GpioOp) (k : Code Shared) : Code Shared :=
  Code.steps (ops.map fun op s => { s with trace := s.trace ++ [op] }) k

def ensureCode (k : Code Shared) : Code Shared :=
  .act id fun s =>
    if s.inited then k
    else
      emits (ensureOps.flatMap BusOp.gpioOps) (.act (fun s => { s with inited := true }) fun _ => k)

def halCode (op : HalOp) (k : Code Shared) : Code Shared :=
  match op with
  | .delayUs us => emits (BusOp.usleep us).gpioOps k
  | op => ensureCode (emits (op.busOps.flatMap BusOp.gpioOps) k)

def halCodes (ops : List HalOp) (k : Code Shared) : Code Shared := ops.foldr halCode k

/-- `need` and `need2`, which may mark the cache as used. -/
def needed (c : Screen) (st : Statics) : Bool × Statics :=
  match c.key.id with
  | .inl id =>
    let r := need id c.key.a c.key.b c.key.extra st.ui
    (r.1, { st with ui := r.2 })
  | .inr id => (ChargeRouter.need2 id c.key.a c.key.b st.u2, st)

def kept (c : Screen) (st : Statics) : Statics :=
  match c.key.id with
  | .inl id => { st with ui := keep id c.key.a c.key.b c.key.extra st.ui }
  | .inr id => { st with u2 := ChargeRouter.keep2 id c.key.a c.key.b }

/-- A public call between `evi_lock` and `evi_unlock`; both ways out release the mutex. -/
def eviCaption (c : Screen) : Code Shared :=
  .lock <| .act (fun s => { s with statics := (needed c s.statics).2 }) fun s =>
    if !(needed c s.statics).1 then .unlock .ret
    else halCodes c.drawn <|
      .act (fun s => { s with statics := kept c s.statics }) fun _ => .unlock .ret

/-- The library after some calls, one after the other. -/
def sequential (cs : List Screen) : Shared :=
  .of (runScreens cs).statics (HalState.powerOn.performs (runScreens cs).issued)

/-- What threads may rely on: the calls take effect in the order of the mutex, each as a whole, and
the panel gets what they ask for in that order. -/
structure Atomic {T : Type} [DecidableEq T] (program : T → List Screen)
    (s : State Shared Screen T) : Prop where
  order : ∀ t, s.callsOf t <+: program t
  exclusive : ∀ t u, s.Holding t → s.Holding u → t = u
  between : s.owner = none → s.shared = sequential s.calls
  during : ∀ t c k, s.running t = some (c, k) → k.Inside → k.exec s.shared = sequential s.calls
  sofar : s.shared.trace <+: (sequential s.calls).trace
  shown : s.owner = none → s.calls ≠ [] → ∀ low level, ∃ rest,
    (sample (panelWiring low) level (gpioWrites s.shared.trace)).map Pulse.nibble =
        initNibbles ++ rest ∧
      joinHalves rest = some (initBytes ++ (runScreens s.calls).issued.flatMap requested)

section Sequential

theorem exec_emits (ops : List GpioOp) (k : Code Shared) (s : Shared) :
    (emits ops k).exec s = k.exec { s with trace := s.trace ++ ops } := by
  have fold : ∀ s : Shared,
      (ops.map fun op (s : Shared) => { s with trace := s.trace ++ [op] }).foldl (fun s f => f s) s =
        { s with trace := s.trace ++ ops } := by
    induction ops with
    | nil => simp
    | cons op ops ih =>
      intro s
      simp [ih]
  rw [emits, Code.exec_steps, fold]

theorem exec_ensureCode (k : Code Shared) (st : Statics) (h : HalState) :
    (ensureCode k).exec (.of st h) = k.exec (.of st (ensure h)) := by
  rw [ensureCode, Code.exec]
  by_cases hin : h.inited = true
  · simp [Shared.of, hin, ensure_of_inited hin]
  · have hout : h.inited = false := by simpa using hin
    simp [Shared.of, hout, exec_emits, Code.exec, HalTrace.ensure_of_not_inited hout]

theorem of_emit (st : Statics) (h : HalState) (ops : List BusOp) :
    Shared.of st (h.emit ops) =
      { Shared.of st h with trace := (Shared.of st h).trace ++ ops.flatMap BusOp.gpioOps } := by
  simp [Shared.of, HalState.emit]

theorem exec_halCode (op : HalOp) (k : Code Shared) (st : Statics) (h : HalState) :
    (halCode op k).exec (.of st h) = k.exec (.of st (op.perform h)) := by
  by_cases hop : Ensures op
  · have hcode : halCode op k = ensureCode (emits (op.busOps.flatMap BusOp.gpioOps) k) := by
      cases op with
      | delayUs us => exact hop.elim
      | _ => rfl
    rw [hcode, exec_ensureCode, exec_emits, HalTrace.perform_of_ensures hop, of_emit]
  · cases op with
    | delayUs us =>
      have hsleep : (HalOp.delayUs us).perform h = h.emit [.usleep us] := rfl
      rw [halCode, exec_emits, hsleep, of_emit]
      simp
    | _ => exact absurd trivial hop

theorem exec_halCodes (ops : List HalOp) (k : Code Shared) (st : Statics) (h : HalState) :
    (halCodes ops k).exec (.of st h) = k.exec (.of st (h.performs ops)) := by
  induction ops generalizing h with
  | nil => rfl
  | cons op ops ih =>
    have hsplit : halCodes (op :: ops) k = halCode op (halCodes ops k) := rfl
    rw [hsplit, exec_halCode, ih]
    rfl

theorem call_eq (c : Screen) (st : Statics) :
    c.call st = if !(needed c st).1 then ([], (needed c st).2)
      else (c.drawn, kept c (needed c st).2) := by
  obtain ⟨body, -, hbody⟩ := c.call_shaped
  obtain ⟨body', hclear, hdrawn⟩ := c.drawn_eq
  have hsame : c.drawn = begin ++ body := by
    rw [Screen.drawn, hbody, shaped_of_not_holds c.key_proper body (not_holds_powerOn _)]
  rw [hbody, shaped, needed, kept, hsame]
  cases c.key.id with
  | inl id =>
    simp only [onUi, captionScreen]
    split_ifs <;> rfl
  | inr id =>
    simp only [onU2, ChargeRouter.chargeScreen]
    split_ifs <;> rfl

theorem exec_eviCaption (c : Screen) (st : Statics) (h : HalState) :
    (eviCaption c).exec (.of st h) = .of (c.call st).2 (h.performs (c.call st).1) := by
  rw [eviCaption, Code.exec, Code.exec, call_eq]
  have hlooked :
      { Shared.of st h with statics := (needed c st).2 } = Shared.of (needed c st).2 h := rfl
  have hstatics : (Shared.of st h).statics = st := rfl
  simp only [hstatics, hlooked]
  split_ifs with hneed
  · rfl
  · rw [exec_halCodes]
    rfl

theorem serial_eviCaption (cs : List Screen) :
    serial eviCaption (.of .powerOn .powerOn) cs = sequential cs := by
  induction cs using List.reverseRecOn with
  | nil => rfl
  | append_singleton cs c ih =>
    rw [serial_snoc, ih, sequential, exec_eviCaption, sequential, runScreens_snoc]
    simp [Run.screen, HalState.performs]

end Sequential

section Locking

theorem inside_emits (ops : List GpioOp) {k : Code Shared} (h : k.Inside) : (emits ops k).Inside :=
  Code.inside_steps _ h

theorem inside_halCode (op : HalOp) {k : Code Shared} (h : k.Inside) : (halCode op k).Inside := by
  have hensure : ∀ k : Code Shared, k.Inside → (ensureCode k).Inside := by
    intro k hk s
    change Code.Inside (if s.inited then k else _)
    split_ifs
    · exact hk
    · exact inside_emits _ fun _ => hk
  cases op with
  | delayUs us => exact inside_emits _ h
  | _ => exact hensure _ (inside_emits _ h)

theorem inside_halCodes (ops : List HalOp) {k : Code Shared} (h : k.Inside) :
    (halCodes ops k).Inside := by
  induction ops with
  | nil => exact h
  | cons op ops ih => exact inside_halCode op ih

theorem guarded_eviCaption (c : Screen) : (eviCaption c).Guarded := by
  intro s
  change Code.Inside (if !(needed c s.statics).1 then _ else _)
  split_ifs
  · rfl
  · exact inside_halCodes _ fun _ => rfl

def Grows (s s' : Shared) : Prop := s.trace <+: s'.trace

theorem along_emits (ops : List GpioOp) {k : Code Shared} (h : k.Along Grows) :
    (emits ops k).Along Grows := by
  refine Code.along_steps ?_ h
  intro f hf s
  obtain ⟨op, -, rfl⟩ := List.mem_map.mp hf
  exact List.prefix_append _ _

theorem along_halCode (op : HalOp) {k : Code Shared} (h : k.Along Grows) :
    (halCode op k).Along Grows := by
  have hensure : ∀ k : Code Shared, k.Along Grows → (ensureCode k).Along Grows := by
    intro k hk s
    refine ⟨List.prefix_refl _, ?_⟩
    change Code.Along Grows (if s.inited then k else _)
    split_ifs
    · exact hk
    · exact along_emits _ fun _ => ⟨List.prefix_refl _, hk⟩
  cases op with
  | delayUs us => exact along_emits _ h
  | _ => exact hensure _ (along_emits _ h)

theorem along_eviCaption (c : Screen) : (eviCaption c).Along Grows := by
  have hcodes : ∀ (ops : List HalOp) (k : Code Shared), k.Along Grows →
      (halCodes ops k).Along Grows := by
    intro ops k hk
    induction ops with
    | nil => exact hk
    | cons op ops ih => exact along_halCode op ih
  intro s
  refine ⟨List.prefix_refl _, ?_⟩
  change Code.Along Grows (if !(needed c s.statics).1 then _ else _)
  split_ifs
  · trivial
  · exact hcodes _ _ fun _ => ⟨List.prefix_refl _, trivial⟩

end Locking

variable {T : Type} [DecidableEq T]

def threads (program : T → List Screen) (schedule : List T) : State Shared Screen T :=
  run eviCaption (start (.of .powerOn .powerOn) program) schedule

theorem issued_ensures {cs : List Screen} (h : cs ≠ []) :
    ∃ op ∈ (runScreens cs).issued, Ensures op := by
  obtain ⟨first, later, rfl⟩ := List.exists_cons_of_ne_nil h
  obtain ⟨body, -, hbody⟩ := first.drawn_eq
  have hfirst : (Run.powerOn.screen first).issued = begin ++ body := hbody
  have hdrawn := InterfaceWidth.issued_prefix (Run.powerOn.screen first) later
  refine ⟨.writeInstr basicFunc, hdrawn.subset ?_, trivial⟩
  rw [hfirst]
  exact List.mem_cons_self

theorem gpioWrites_flatMap (bus : List BusOp) :
    gpioWrites (bus.flatMap BusOp.gpioOps) = bus.flatMap BusOp.writes := by
  induction bus with
  | nil => rfl
  | cons op bus ih =>
    rw [List.flatMap_cons, gpioWrites_append, ih, List.flatMap_cons]
    rfl

theorem shown_sequential {cs : List Screen} (h : cs ≠ []) (low : UInt8) (level : Gpio → Bool) :
    ∃ rest, (sample (panelWiring low) level (gpioWrites (sequential cs).trace)).map Pulse.nibble =
        initNibbles ++ rest ∧
      joinHalves rest = some (initBytes ++ (runScreens cs).issued.flatMap requested) := by
  have hsampled := HalTrace.sampled_eq low level (runScreens cs).issued
  rw [if_pos (issued_ensures h), HalTrace.sampled, ← gpioWrites_flatMap] at hsampled
  exact ⟨_, hsampled, joinHalves_flatMap_halves _⟩

/-- However the threads are scheduled between their GPIO operations, the library behaves as if each
call were made at once, in the order in which the mutex was taken. -/
theorem threads_atomic (program : T → List Screen) (schedule : List T) :
    Atomic program (threads program schedule) := by
  have h := serialised_run guarded_eviCaption (.of .powerOn .powerOn) program schedule
  have hbetween : (threads program schedule).owner = none →
      (threads program schedule).shared = sequential (threads program schedule).calls :=
    fun hfree => (h.free hfree).trans (serial_eviCaption _)
  refine ⟨?_, ?_, hbetween, ?_, ?_, ?_⟩
  · intro t
    rw [← h.order t, List.append_assoc]
    exact List.prefix_append _ _
  · intro t u ht hu
    exact h.exclusive guarded_eviCaption ht hu
  · intro t c k hrunning hk
    have howner := h.owner_of_inside guarded_eviCaption hrunning hk
    obtain ⟨c', k', hrunning', -, hexec⟩ := h.inside t howner
    obtain ⟨rfl, rfl⟩ := Prod.mk.inj (Option.some.inj (hrunning.symm.trans hrunning'))
    exact hexec.trans (serial_eviCaption _)
  · rw [← serial_eviCaption]
    exact along_serial (R := Grows) (fun _ => List.prefix_refl _) List.IsPrefix.trans
      along_eviCaption guarded_eviCaption _ program schedule
  · intro hfree hcalls low level
    rw [hbetween hfree]
    exact shown_sequential hcalls low level

/-- No call of any thread is shut out by the others. -/
theorem threads_finish (program : T → List Screen) (schedule : List T) (t : T) :
    ∃ more, (threads program (schedule ++ more)).running t = none ∧
      (threads program (schedule ++ more)).callsOf t = program t :=
  exists_finish guarded_eviCaption _ program schedule t

end Evi7688.Libevi.Threads
