/- Evi7688/Lcdsvc/PanelCursor
   digest: What the panel receives from a daemon whose GPIO works, and where its cursor puts it. -/

import Evi7688.Lcdsvc.OpenHandles
import Evi7688.Library.SharedCursor

set_option autoImplicit false
set_option relaxedAutoImplicit false

namespace Evi7688.Lcdsvc.PanelCursor

open Evi7688.Library.CharacterPanel (Pulse settle settle_append)
open Evi7688.Library.SharedCursor (placed store)
open LcdHw
open Service
open WriteFailures
open OpenHandles

universe u

/-- Every `open` returns a descriptor, and every write through one succeeds. -/
structure SysfsSound (env : SysfsEnv) : Prop where
  opens : ∀ n, 0 ≤ env.openResult n
  writes : ∀ n, env.writeOk n = true

theorem openEnv_sound : SysfsSound openEnv := ⟨openEnv_opens, fun _ => rfl⟩

/-- The daemon has all its handles, and the enable line rests low. -/
structure Working (h : Host) : Prop where
  handles : ∀ l, 0 ≤ h.g.fd l
  enLow : levels h .en = false

section Receiving

theorem settle_lowWrites_en {level : Line → Bool} (low : level .en = false) (c : Command) :
    settle level (lowWrites c) .en = false := by
  cases c with
  | init => rfl
  | _ => exact low

theorem settle_byteWrites_en (level : Line → Bool) (p : Pulse) :
    settle level (byteWrites p) .en = false := by
  rw [byteWrites, settle_append]
  rfl

theorem settle_neededWrites_en {level : Line → Bool} (low : level .en = false) (c : Command) :
    settle level (neededWrites c) .en = false := by
  rw [neededWrites, settle_append]
  have hlow := settle_lowWrites_en low c
  induction requested c using List.reverseRecOn with
  | nil => exact hlow
  | append_singleton ps p ih =>
    rw [List.flatMap_append, List.flatMap_singleton, settle_append]
    exact settle_byteWrites_en _ p

variable {env : SysfsEnv} (sound : SysfsSound env)

include sound

theorem carriedOut_of_working {h : Host} (working : Working h) (c : Command) :
    CarriedOut c h (runCommand env c h) := by
  refine (carriedOut_iff env c h).mpr ⟨fun x _ => ?_, fun k _ => sound.writes _, ?_⟩
  · cases c with
    | init => exact sound.opens _
    | _ => exact working.handles x.1
  · exact fun _ => working.enLow

theorem working_runCommand {h : Host} (working : Working h) (c : Command) :
    Working (runCommand env c h) := by
  constructor
  · intro l
    rw [runCommand_eq, (sameHandles_performed env c (start env c h)).g, start_fd]
    cases c with
    | init => exact sound.opens _
    | _ => exact working.handles l
  · have hwritten := (carriedOut_of_working sound working c).written
    rw [levels, hwritten, settle_append]
    exact settle_neededWrites_en working.enLow c

theorem working_served (commands : List Command) : Working (served env commands) := by
  induction commands using List.reverseRecOn with
  | nil => exact working_runCommand sound ⟨fun _ => le_rfl, rfl⟩ .init
  | append_singleton commands c ih =>
    rw [served_snoc]
    exact working_runCommand sound ih c

theorem received_foldl (lines : List (List UInt8)) {d : Session} (working : Working d.host) :
    (lines.foldl (handleLine env) d).host.received =
        d.host.received ++ (lines.filterMap named).flatMap requested ∧
      Working (lines.foldl (handleLine env) d).host := by
  induction lines generalizing d with
  | nil => exact ⟨by simp, working⟩
  | cons line lines ih =>
    rw [List.foldl_cons, List.filterMap_cons]
    cases hd : dispatch line with
    | error reply =>
      rw [handleLine_of_error env d hd, named_of_error hd]
      exact ih working
    | ok c =>
      rw [handleLine_of_ok env d hd, named_of_ok hd]
      obtain ⟨hreceived, hworking⟩ :=
        ih (d := ⟨runCommand env c d.host, d.replies ++ [okReply], d.executed ++ [c]⟩)
          (working_runCommand sound working c)
      refine ⟨?_, hworking⟩
      rw [hreceived, (carriedOut_of_working sound working c).latched, List.append_assoc,
        List.flatMap_cons]

end Receiving

/-- The cursor of the panel and what its cells show. -/
structure Display (α : Type u) where
  cursor : α
  cells : α → Option UInt8

/-- A panel: a data byte is written at the cursor, which moves to the `next` cell, and a DDRAM
instruction sets the cursor. Of the other instructions nothing is assumed. -/
structure Panel (α : Type u) where
  next : α → α
  address : UInt8 → α
  instruct : UInt8 → Display α → Display α
  instruct_ddram : ∀ (addr : UInt8) (d : Display α),
    instruct (0x80 ||| (addr &&& 0x7F)) d = ⟨address (addr &&& 0x7F), d.cells⟩

section Cursor

variable {α : Type u} [DecidableEq α] (panel : Panel α)

def Panel.pulse (d : Display α) (p : Pulse) : Display α :=
  if p.rs then ⟨panel.next d.cursor, Function.update d.cells d.cursor (some p.bus)⟩
  else panel.instruct p.bus d

def Panel.pulses (d : Display α) (ps : List Pulse) : Display α := ps.foldl panel.pulse d

/-- The data bytes among the pulses, each with the cell it is written to. -/
def Panel.writes : Display α → List Pulse → List (α × UInt8)
  | _, [] => []
  | d, p :: ps => (if p.rs then [(d.cursor, p.bus)] else []) ++ writes (panel.pulse d p) ps

def dataBytes (ps : List Pulse) : List UInt8 := (ps.filter Pulse.rs).map Pulse.bus

theorem dataBytes_text (text : List UInt8) : dataBytes (text.map (⟨true, ·⟩)) = text := by
  induction text with
  | nil => rfl
  | cons u text ih => exact congrArg (List.cons u) ih

theorem dataBytes_append (ps qs : List Pulse) :
    dataBytes (ps ++ qs) = dataBytes ps ++ dataBytes qs := by
  rw [dataBytes, List.filter_append, List.map_append]
  rfl

theorem Panel.map_snd_writes (d : Display α) (ps : List Pulse) :
    (panel.writes d ps).map Prod.snd = dataBytes ps := by
  induction ps generalizing d with
  | nil => rfl
  | cons p ps ih =>
    obtain ⟨rs, bus⟩ := p
    rw [writes, List.map_append, ih]
    cases rs <;> rfl

theorem Panel.pulses_append (d : Display α) (ps qs : List Pulse) :
    panel.pulses d (ps ++ qs) = panel.pulses (panel.pulses d ps) qs :=
  List.foldl_append

theorem Panel.pulses_ddram (d : Display α) (addr : UInt8) :
    panel.pulses d (requested (.ddram addr)) = ⟨panel.address (addr &&& 0x7F), d.cells⟩ :=
  panel.instruct_ddram addr d

theorem Panel.writes_text (d : Display α) (text : List UInt8) :
    panel.writes d (requested (.put text)) = placed panel.next d.cursor text := by
  simp only [requested]
  induction text generalizing d with
  | nil => rfl
  | cons u text ih =>
    rw [List.map_cons, writes, ih]
    rfl

theorem Panel.pulses_text (d : Display α) (text : List UInt8) :
    panel.pulses d (requested (.put text)) =
      ⟨panel.next^[text.length] d.cursor, store d.cells (placed panel.next d.cursor text)⟩ := by
  simp only [requested]
  induction text generalizing d with
  | nil => rfl
  | cons u text ih =>
    have hstep : panel.pulses d ((u :: text).map (⟨true, ·⟩)) =
        panel.pulses ⟨panel.next d.cursor, Function.update d.cells d.cursor (some u)⟩
          (text.map (⟨true, ·⟩)) := rfl
    rw [hstep, ih]
    rfl

end Cursor

end Evi7688.Lcdsvc.PanelCursor
