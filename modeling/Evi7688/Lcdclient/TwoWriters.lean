/- Evi7688/Lcdclient/TwoWriters
   digest: Two processes that each set the cursor and then write a text, over one daemon. -/

import Evi7688.Lcdclient.PutText
import Evi7688.Lcdsvc.PanelCursor

set_option autoImplicit false
set_option relaxedAutoImplicit false

namespace Evi7688.Lcdclient.TwoWriters

open Evi7688.Library.Bytes (ascii newline snprintf CString literal)
open Evi7688.Library.CharacterPanel (Pulse)
open Evi7688.Library.Delimited
open Evi7688.Library
open Evi7688.Library.SharedCursor (Job State placed store Undisturbed before between)
open Evi7688.Lcdsvc.LcdHw
open Evi7688.Lcdsvc.Service
open Evi7688.Lcdsvc.WriteFailures (requested)
open Evi7688.Lcdsvc.OpenHandles (served)
open Evi7688.Lcdsvc.PanelCursor
open EviLcd
open PutText

universe u

inductive Process
  | one | two
  deriving DecidableEq

def Process.other : Process → Process
  | .one => .two
  | .two => .one

/-- What a process passes to `evi_lcd_ddram` and `evi_lcd_put`. -/
structure Writer where
  addr : UInt8
  text : CString

/-- The panel and the display it starts with, the world of the daemon, the two processes, and how
each of their calls fares. -/
structure Setting (α : Type u) where
  panel : Panel α
  powerOn : Display α
  env : SysfsEnv
  writer : Process → Writer
  channel : Process → Nat → Channel

/-- The daemon, the calls each process has made, the results of all calls, and the bytes each
process made the panel write, with their cells. -/
structure System (α : Type u) where
  session : Session
  calls : Process → Nat
  results : List Int
  written : Process → List (α × UInt8)

section Definitions

variable {α : Type u} [DecidableEq α] (st : Setting α)

def Setting.display (h : Host) : Display α := st.panel.pulses st.powerOn h.received

/-- The next call of a process: the daemon serves its connection before it accepts another. -/
def step (s : System α) (p : Process) : System α :=
  match s.calls p with
  | 0 =>
    let r := eviLcdDdram (st.channel p 0) st.env (st.writer p).addr s.session
    { s with
      session := r.2
      calls := Function.update s.calls p 1
      results := s.results ++ [r.1] }
  | 1 =>
    let r := eviLcdPut (st.channel p 1) st.env (some (st.writer p).text) s.session
    let pulses := r.2.host.received.drop s.session.host.received.length
    { session := r.2
      calls := Function.update s.calls p 2
      results := s.results ++ [r.1]
      written := Function.update s.written p
        (st.panel.writes (st.display s.session.host) pulses) }
  | _ => s

/-- The daemon has executed some commands when the processes begin. -/
def begin (history : List Command) : System α :=
  ⟨⟨served st.env history, [], history⟩, fun _ => 0, [], fun _ => []⟩

/-- A run in the order in which the daemon accepts the connections. -/
def run (history : List Command) (order : List Process) : System α :=
  order.foldl (step st) (begin st history)

def Succeeded (s : System α) : Prop := ∀ rc ∈ s.results, rc = 0

instance (s : System α) : Decidable (Succeeded s) := inferInstanceAs (Decidable (∀ rc ∈ _, _))

def Setting.jobs (p : Process) : Job α UInt8 :=
  ⟨st.panel.address ((st.writer p).addr &&& 0x7F), (st.writer p).text.bytes⟩

/-- The text of a process, written from its own address on. -/
def Setting.own (p : Process) : List (α × UInt8) :=
  placed st.panel.next (st.jobs p).start (st.jobs p).text

/-- Each process has its text written from its own address on, and the panel shows it there. -/
def AtOwnAddresses (s : System α) : Prop :=
  ∀ p, s.written p = st.own p ∧
    ∀ c ∈ (st.own p).map Prod.fst,
      (st.display s.session.host).cells c = store (fun _ => none) (st.own p) c

/-- The system as two writers at the panel's cursor. -/
def Setting.project (s : System α) : State Process α UInt8 :=
  ⟨(st.display s.session.host).cursor, (st.display s.session.host).cells, s.calls, s.written⟩

/-- A string that fits one read of the daemon and is one line. -/
def Deliverable (s : CString) : Prop := s.bytes.length ≤ 506 ∧ newline ∉ s.bytes

instance (s : CString) : Decidable (Deliverable s) := inferInstanceAs (Decidable (_ ∧ _))

end Definitions

section Bytes

/-- What the lines of a request ask the panel to receive. -/
def requestedBy (cmd : List UInt8) : List Pulse :=
  ((requestLines cmd).filterMap named).flatMap requested

def putCommand (s : CString) : List UInt8 := snprintf 600 (ascii "PUT " ++ s.bytes)

theorem dataBytes_line (line : List UInt8) :
    (dataBytes ((named line).toList.flatMap requested)).Sublist line := by
  cases hc : named line with
  | none => exact List.nil_sublist _
  | some c =>
    rw [Option.toList_some, List.flatMap_singleton]
    cases c with
    | put text =>
      rw [requested, dataBytes_text, text_of_named_put hc]
      exact List.drop_sublist 4 line
    | _ => exact List.nil_sublist _

theorem dataBytes_lines (lines : List (List UInt8)) :
    (dataBytes ((lines.filterMap named).flatMap requested)).Sublist lines.flatten := by
  induction lines with
  | nil => exact List.nil_sublist _
  | cons line lines ih =>
    have hsplit : ((line :: lines).filterMap named).flatMap requested =
        (named line).toList.flatMap requested ++ (lines.filterMap named).flatMap requested := by
      cases hc : named line <;> simp [hc]
    rw [hsplit, dataBytes_append, List.flatten_cons]
    exact (dataBytes_line line).append ih

theorem newline_notMem_dispatched (pieces : List (List UInt8)) :
    newline ∉ (dispatched pieces).flatten := by
  intro hmem
  obtain ⟨line, hline, hmem⟩ := List.mem_flatten.mp hmem
  obtain ⟨piece, -, hrecord⟩ := List.mem_flatMap.mp hline
  exact notMem_of_mem_recordsFrom [] _ List.not_mem_nil line hrecord hmem

theorem requestedBy_deliverable {s : CString} (h : Deliverable s) :
    requestedBy (putCommand s) = requested (.put s.bytes) := by
  have hlines : requestLines (putCommand s) = [ascii "PUT " ++ s.bytes] := by
    rw [putCommand, requestLines_short h.1, records_record _ (newline_notMem_put h.2)]
    rfl
  rw [requestedBy, hlines, List.filterMap_cons, named_put]
  exact List.append_nil _

/-- The data bytes of a request are those of its string exactly when it fits one read of the daemon
and is one line. -/
theorem dataBytes_putCommand_iff (s : CString) :
    dataBytes (requestedBy (putCommand s)) = s.bytes ↔ Deliverable s := by
  constructor
  · intro h
    have hsub : s.bytes.Sublist (requestLines (putCommand s)).flatten := by
      have hlines := dataBytes_lines (requestLines (putCommand s))
      rwa [← requestedBy, h] at hlines
    have hclean : newline ∉ s.bytes := fun hmem =>
      newline_notMem_dispatched _ (hsub.subset hmem)
    refine ⟨?_, hclean⟩
    by_contra hlong
    have hfirst : records newline (ascii "PUT " ++ s.bytes.take 507) = [] := by
      apply recordsFrom_of_notMem
      exact newline_notMem_put fun hmem => hclean (List.mem_of_mem_take hmem)
    have hlines : requestLines (putCommand s) = records newline (overflow s ++ [newline]) := by
      rw [putCommand, requestLines_long (by omega), hfirst, List.nil_append]
    rw [hlines] at hsub
    have hle := (hsub.trans (flatten_recordsFrom_sublist newline [] _)).length_le
    have hoverflow : (overflow s).length ≤ 88 := by
      rw [overflow, List.length_drop, List.length_take]
      omega
    rw [List.nil_append, List.length_append, List.length_singleton] at hle
    omega
  · intro h
    rw [requestedBy_deliverable h]
    exact dataBytes_text s.bytes

end Bytes

section Calls

variable {ch : Channel} {env : SysfsEnv} {d : Session}

theorem sendCmd_of_up (hup : ch.up = true) (cmd : List UInt8) :
    (sendCmd ch env cmd d).2 =
      (requestLines cmd).foldl (handleLine env) { d with replies := [] } := by
  simp only [Channel.up, Bool.and_eq_true] at hup
  obtain ⟨hsocket, hconnect⟩ := hup
  simp only [sendCmd, hsocket, hconnect, handleClient_eq, Bool.not_true, Bool.false_eq_true,
    if_false]
  split_ifs
  · rfl
  · rfl
  · rfl

variable (sound : SysfsSound env)

include sound

theorem sendCmd_received (hup : ch.up = true) (working : Working d.host) (cmd : List UInt8) :
    (sendCmd ch env cmd d).2.host.received = d.host.received ++ requestedBy cmd ∧
      Working (sendCmd ch env cmd d).2.host := by
  rw [sendCmd_of_up hup]
  exact received_foldl sound (requestLines cmd) (d := { d with replies := [] }) working

theorem ddram_received (hup : ch.up = true) (working : Working d.host) (addr : UInt8) :
    (eviLcdDdram ch env addr d).2.host.received = d.host.received ++ requested (.ddram addr) ∧
      Working (eviLcdDdram ch env addr d).2.host := by
  have hrun : (eviLcdDdram ch env addr d).2.host = runCommand env (.ddram addr) d.host :=
    congrArg (·.2.host) (plainCall_run hup env (.ddram addr) d)
  rw [hrun]
  exact ⟨(carriedOut_of_working sound working (.ddram addr)).latched,
    working_runCommand sound working (.ddram addr)⟩

theorem put_received (hup : ch.up = true) (working : Working d.host) (s : CString) :
    (eviLcdPut ch env (some s) d).2.host.received =
        d.host.received ++ requestedBy (putCommand s) ∧
      Working (eviLcdPut ch env (some s) d).2.host :=
  sendCmd_received sound hup working (putCommand s)

end Calls

section Steps

variable {α : Type u} [DecidableEq α] {st : Setting α} {s : System α} {p r : Process}

theorem Setting.display_append {h h' : Host} {ps : List Pulse}
    (received : h'.received = h.received ++ ps) :
    st.display h' = st.panel.pulses (st.display h) ps := by
  rw [Setting.display, received, Panel.pulses_append]
  rfl

theorem step_first (h : s.calls p = 0) :
    step st s p =
      { s with
        session := (eviLcdDdram (st.channel p 0) st.env (st.writer p).addr s.session).2
        calls := Function.update s.calls p 1
        results := s.results ++
          [(eviLcdDdram (st.channel p 0) st.env (st.writer p).addr s.session).1] } := by
  simp only [step, h]

theorem step_second (h : s.calls p = 1) {d : Session} {rc : Int}
    (call : eviLcdPut (st.channel p 1) st.env (some (st.writer p).text) s.session = (rc, d))
    {ps : List Pulse} (received : d.host.received = s.session.host.received ++ ps) :
    step st s p =
      { session := d
        calls := Function.update s.calls p 2
        results := s.results ++ [rc]
        written := Function.update s.written p
          (st.panel.writes (st.display s.session.host) ps) } := by
  simp only [step, h, call, received, List.drop_left]

theorem step_over (h : 2 ≤ s.calls p) : step st s p = s := by
  unfold step
  split
  · omega
  · omega
  · rfl

theorem step_frame (st : Setting α) (s : System α) (h : p ≠ r) :
    (step st s r).calls p = s.calls p ∧ (step st s r).written p = s.written p := by
  unfold step
  split
  · exact ⟨Function.update_of_ne h _ _, rfl⟩
  · exact ⟨Function.update_of_ne h _ _, Function.update_of_ne h _ _⟩
  · exact ⟨rfl, rfl⟩

theorem calls_step (st : Setting α) (s : System α) (p r : Process) :
    (step st s r).calls p = if r = p ∧ s.calls p < 2 then s.calls p + 1 else s.calls p := by
  by_cases hr : r = p
  · subst hr
    obtain hset | hwrite | hover : s.calls r = 0 ∨ s.calls r = 1 ∨ 2 ≤ s.calls r := by omega
    · simp [step, hset]
    · simp [step, hwrite]
    · rw [step_over hover, if_neg fun h => Nat.not_lt.mpr hover h.2]
  · rw [(step_frame st s (Ne.symm hr)).1, if_neg fun h => hr h.1]

theorem results_step (st : Setting α) (s : System α) (p : Process) :
    s.results <+: (step st s p).results := by
  unfold step
  split
  · exact List.prefix_append _ _
  · exact List.prefix_append _ _
  · exact List.prefix_rfl

theorem up_of_zero {ch : Channel} {env : SysfsEnv} {cmd : List UInt8} {d : Session}
    (h : (sendCmd ch env cmd d).1 = 0) : ch.up = true := by
  by_contra hdown
  exact sendCmd_down env (Bool.not_eq_true _ ▸ hdown) cmd d h

theorem up_first (h : s.calls p = 0) (succeeded : Succeeded (step st s p)) :
    (st.channel p 0).up = true := by
  rw [step_first h] at succeeded
  exact up_of_zero (succeeded _ (List.mem_append_right _ List.mem_cons_self))

theorem up_second (h : s.calls p = 1) (succeeded : Succeeded (step st s p)) :
    (st.channel p 1).up = true := by
  simp only [step, h] at succeeded
  exact up_of_zero (succeeded _ (List.mem_append_right _ List.mem_cons_self))

/-- Whatever the processes have done, the daemon works, and a process that has made its second call
has had the data bytes of its request written. -/
structure Inv (st : Setting α) (s : System α) : Prop where
  working : Working s.session.host
  bytes : ∀ p, (s.written p).map Prod.snd =
    if s.calls p < 2 then [] else dataBytes (requestedBy (putCommand (st.writer p).text))

variable (sound : SysfsSound st.env)

include sound

theorem inv_step (inv : Inv st s) (succeeded : Succeeded (step st s p)) : Inv st (step st s p) := by
  have hothers : ∀ q, q ≠ p → ((step st s p).written q).map Prod.snd =
      if (step st s p).calls q < 2 then [] else
        dataBytes (requestedBy (putCommand (st.writer q).text)) := by
    intro q hq
    obtain ⟨hcalls, hwritten⟩ := step_frame st s hq
    rw [hcalls, hwritten]
    exact inv.bytes q
  obtain hset | hwrite | hover : s.calls p = 0 ∨ s.calls p = 1 ∨ 2 ≤ s.calls p := by omega
  · have hup := up_first hset succeeded
    refine ⟨?_, fun q => ?_⟩
    · rw [step_first hset]
      exact (ddram_received sound hup inv.working _).2
    · by_cases hq : q = p
      · subst hq
        have hbytes := inv.bytes q
        rw [hset] at hbytes
        rw [step_first hset]
        simp only [Function.update_self]
        exact hbytes
      · exact hothers q hq
  · have hup := up_second hwrite succeeded
    obtain ⟨hreceived, hworking⟩ := put_received sound hup inv.working (st.writer p).text
    have hstep := step_second hwrite rfl hreceived
    refine ⟨?_, fun q => ?_⟩
    · rw [hstep]
      exact hworking
    · by_cases hq : q = p
      · subst hq
        rw [hstep]
        simp only [Function.update_self]
        exact st.panel.map_snd_writes _ _
      · exact hothers q hq
  · rw [step_over hover]
    exact inv

theorem project_step (deliverable : ∀ p, Deliverable (st.writer p).text)
    (working : Working s.session.host) (succeeded : Succeeded (step st s p)) :
    st.project (step st s p) =
      SharedCursor.turn st.panel.next st.jobs (st.project s) p := by
  obtain hset | hwrite | hover : s.calls p = 0 ∨ s.calls p = 1 ∨ 2 ≤ s.calls p := by omega
  · have hup := up_first hset succeeded
    have hreceived := (ddram_received sound hup working (st.writer p).addr).1
    have hfirst : (st.project s).turns p = 0 := hset
    rw [SharedCursor.turn_first hfirst, step_first hset]
    simp only [Setting.project, Setting.display_append hreceived, Panel.pulses_ddram]
    rfl
  · have hup := up_second hwrite succeeded
    have hreceived := (put_received sound hup working (st.writer p).text).1
    rw [requestedBy_deliverable (deliverable p)] at hreceived
    have hsecond : (st.project s).turns p = 1 := hwrite
    generalize hcall : eviLcdPut (st.channel p 1) st.env (some (st.writer p).text) s.session = call
      at hreceived
    obtain ⟨rc, d⟩ := call
    rw [SharedCursor.turn_second hsecond, step_second hwrite hcall hreceived]
    simp only [Setting.project, Setting.display_append hreceived, Panel.pulses_text,
      Panel.writes_text]
    rfl
  · have hdone : 2 ≤ (st.project s).turns p := hover
    rw [step_over hover, SharedCursor.turn_over hdone]

end Steps

section Runs

variable {α : Type u} [DecidableEq α] (st : Setting α) (history : List Command)

theorem run_snoc (order : List Process) (p : Process) :
    run st history (order ++ [p]) = step st (run st history order) p := by
  rw [run, List.foldl_append]
  rfl

theorem succeeded_of_snoc {order : List Process} {p : Process}
    (succeeded : Succeeded (run st history (order ++ [p]))) :
    Succeeded (run st history order) := by
  intro rc hrc
  apply succeeded
  rw [run_snoc]
  exact (results_step st _ p).subset hrc

variable {st} (sound : SysfsSound st.env) {order : List Process}

include sound

theorem inv_run (succeeded : Succeeded (run st history order)) : Inv st (run st history order) := by
  induction order using List.reverseRecOn with
  | nil => exact ⟨working_served sound history, fun _ => rfl⟩
  | append_singleton order p ih =>
    have inv := ih (succeeded_of_snoc st history succeeded)
    rw [run_snoc] at succeeded ⊢
    exact inv_step sound inv succeeded

theorem project_run (deliverable : ∀ p, Deliverable (st.writer p).text)
    (succeeded : Succeeded (run st history order)) :
    st.project (run st history order) =
      SharedCursor.run st.panel.next st.jobs (st.project (begin st history)) order := by
  induction order using List.reverseRecOn with
  | nil => rfl
  | append_singleton order p ih =>
    have earlier := succeeded_of_snoc st history succeeded
    have working := (inv_run history sound earlier).working
    rw [run_snoc] at succeeded ⊢
    rw [project_step sound deliverable working succeeded, ih earlier, SharedCursor.run_snoc]

theorem deliverable_of_written (succeeded : Succeeded (run st history order)) {p : Process}
    (twice : order.count p = 2) (written : (run st history order).written p = st.own p) :
    Deliverable (st.writer p).text := by
  have hcalls : (run st history order).calls p = 2 := by
    have hzero : (begin st history).calls p = 0 := rfl
    have hcount : (run st history order).calls p = (begin st history).calls p + order.count p :=
      SharedCursor.counted_foldl (calls_step st) (by omega)
    rw [hcount, hzero, twice]
  have hbytes := (inv_run history sound succeeded).bytes p
  rw [written, hcalls, if_neg (by omega), Setting.own, SharedCursor.map_snd_placed] at hbytes
  exact (dataBytes_putCommand_iff _).mp hbytes.symm

end Runs

section Interleavings

variable {α : Type u} [DecidableEq α] {st : Setting α}

theorem written_run_iff (sound : SysfsSound st.env) (history : List Command)
    {order : List Process} (twice : ∀ p, order.count p = 2)
    (succeeded : Succeeded (run st history order))
    (deliverable : ∀ p, Deliverable (st.writer p).text) (p : Process) :
    (run st history order).written p = st.own p ↔
      (st.writer p).text.bytes = [] ∨
        Undisturbed st.panel.next (st.jobs p) (st.jobs p.other) (before order p)
          (between order p) := by
  have hproject := congrArg State.written (project_run history sound deliverable succeeded)
  have hwritten := congrFun hproject p
  have hother : p ≠ p.other := by
    cases p <;> decide
  have honly : ∀ r ∈ order, r = p ∨ r = p.other := by
    intro r _
    cases r <;> cases p <;> decide
  have hle : order.count p.other ≤ 2 := (twice p.other).le
  rw [show (run st history order).written p = _ from hwritten]
  exact SharedCursor.written_iff hother rfl rfl honly (twice p) hle

omit [DecidableEq α] in
theorem apart_own
    (apart : List.Disjoint ((st.own .one).map Prod.fst) ((st.own .two).map Prod.fst)) :
    SharedCursor.Apart st.own := by
  intro p q hpq
  cases p with
  | one =>
    cases q with
    | one => exact absurd rfl hpq
    | two => exact apart
  | two =>
    cases q with
    | one => exact apart.symm
    | two => exact absurd rfl hpq

/-- Two processes that each set the cursor and write have both texts at their own addresses exactly
when both strings arrive and, of each process with a text, the other one leaves the cursor where
this one set it. -/
theorem atOwnAddresses_iff (st : Setting α) (sound : SysfsSound st.env) (history : List Command)
    (order : List Process) (twice : ∀ p, order.count p = 2)
    (succeeded : Succeeded (run st history order))
    (apart : List.Disjoint ((st.own .one).map Prod.fst) ((st.own .two).map Prod.fst)) :
    AtOwnAddresses st (run st history order) ↔
      ∀ p, Deliverable (st.writer p).text ∧
        ((st.writer p).text.bytes = [] ∨
          Undisturbed st.panel.next (st.jobs p) (st.jobs p.other) (before order p)
            (between order p)) := by
  constructor
  · intro h
    have deliverable : ∀ p, Deliverable (st.writer p).text := fun p =>
      deliverable_of_written history sound succeeded (twice p) (h p).1
    intro p
    exact ⟨deliverable p,
      (written_run_iff sound history twice succeeded deliverable p).mp (h p).1⟩
  · intro h
    have hwritten : ∀ p, (run st history order).written p = st.own p := fun p =>
      (written_run_iff sound history twice succeeded (fun q => (h q).1) p).mpr (h p).2
    have hproject := project_run history sound (fun p => (h p).1) succeeded
    have hapart : SharedCursor.Apart (st.project (run st history order)).written := by
      have hown : (st.project (run st history order)).written = st.own := funext hwritten
      rw [hown]
      exact apart_own apart
    have hshown : SharedCursor.Shown (st.project (run st history order)) := by
      rw [hproject] at hapart ⊢
      exact SharedCursor.shown_run _ _ hapart
    intro p
    refine ⟨hwritten p, fun c hc => ?_⟩
    rw [← hwritten p] at hc ⊢
    exact hshown p c hc

end Interleavings

/-- A panel whose cells are one long line. -/
def linePanel : Panel Nat where
  next := (· + 1)
  address := UInt8.toNat
  instruct b d := if b &&& 0x80 = 0 then d else ⟨(b &&& 0x7F).toNat, d.cells⟩
  instruct_ddram := by
    intro addr d
    have table : ∀ n : Fin 256,
        (0x80 ||| (UInt8.ofNat n &&& 0x7F)) &&& 0x80 ≠ 0 ∧
          (0x80 ||| (UInt8.ofNat n &&& 0x7F)) &&& 0x7F = UInt8.ofNat n &&& 0x7F := by
      decide +kernel
    obtain ⟨hset, haddr⟩ := table ⟨addr.toNat, addr.toNat_lt⟩
    simp only [UInt8.ofNat_toNat] at hset haddr
    rw [if_neg hset, haddr]

/-- Two texts on one line, and calls that all succeed. -/
def twoTexts : Setting Nat where
  panel := linePanel
  powerOn := ⟨0, fun _ => none⟩
  env := openEnv
  writer
    | .one => ⟨0x00, literal "AB"⟩
    | .two => ⟨0x40, literal "CD"⟩
  channel _ _ := ⟨true, true, 0⟩

theorem twoTexts_apart :
    List.Disjoint ((twoTexts.own .one).map Prod.fst) ((twoTexts.own .two).map Prod.fst) := by
  have hone : (twoTexts.own .one).map Prod.fst = [0x00, 0x01] := rfl
  have htwo : (twoTexts.own .two).map Prod.fst = [0x40, 0x41] := rfl
  rw [hone, htwo]
  simp

theorem one_after_the_other :
    AtOwnAddresses twoTexts (run twoTexts [] [.one, .one, .two, .two]) := by
  have twice : ∀ p, [Process.one, .one, .two, .two].count p = 2 := by
    intro p
    cases p <;> rfl
  have succeeded : Succeeded (run twoTexts [] [.one, .one, .two, .two]) := by
    decide +kernel
  have hiff := atOwnAddresses_iff twoTexts openEnv_sound [] _ twice succeeded twoTexts_apart
  refine hiff.mpr fun p => ?_
  cases p with
  | one => exact ⟨by decide, Or.inr trivial⟩
  | two => exact ⟨by decide, Or.inr trivial⟩

/-- The second process sets the cursor between the two calls of the first: both texts end up at the
second one's address. -/
theorem cursor_stolen :
    Succeeded (run twoTexts [] [.one, .two, .one, .two]) ∧
      List.Disjoint ((twoTexts.own .one).map Prod.fst) ((twoTexts.own .two).map Prod.fst) ∧
      ¬ AtOwnAddresses twoTexts (run twoTexts [] [.one, .two, .one, .two]) := by
  refine ⟨by decide +kernel, twoTexts_apart, fun h => ?_⟩
  have hwritten : (run twoTexts [] [.one, .two, .one, .two]).written .one =
      [(0x40, 0x41), (0x41, 0x42)] := by
    decide +kernel
  have hown := (h .one).1
  rw [hwritten] at hown
  revert hown
  decide

end Evi7688.Lcdclient.TwoWriters
