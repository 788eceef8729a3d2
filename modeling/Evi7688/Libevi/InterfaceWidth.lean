/- Evi7688/Libevi/InterfaceWidth
   digest: Whether driver and controller agree on the width of the interface along a run of calls. -/

import Evi7688.Libevi.Screens

set_option autoImplicit false
set_option relaxedAutoImplicit false

namespace Evi7688.Libevi.InterfaceWidth

open Evi7688.Library.Bytes (toNat_lower)
open Evi7688.Library.CharacterPanel
open Hal
open Screens

/-- Once `ensure` has finished, the controller is at a byte boundary of the 4-bit interface between
any two steps, and receives every byte of `w8` as that byte. -/
structure InStep (low : UInt8) (bus : List BusOp) : Prop where
  fourBit : ∀ pre, pre <+: bus → ensureOps <+: pre → (controllerAfter low pre).FourBit
  received : ∀ pre v rs, pre ++ [.w8 v rs] <+: bus → ensureOps <+: pre →
    (controllerAfter low (pre ++ [.w8 v rs])).received =
      (controllerAfter low pre).received ++ [⟨rs, v⟩]

def Late : BusOp → Prop
  | .usleep _ => True
  | .w8 _ _ => True
  | _ => False

def SelectsEightBit (v : UInt8) : Prop := v &&& 0xF0 = 0x30

instance (v : UInt8) : Decidable (SelectsEightBit v) := inferInstanceAs (Decidable (_ = _))

private theorem low_nibble (low : UInt8) : low &&& 0x0F = UInt8.ofNat (low.toNat % 16) := by
  rw [← UInt8.toNat_inj, toNat_lower, UInt8.toNat_ofNat']
  omega

theorem controllerAfter_low (low : UInt8) (bus : List BusOp) :
    controllerAfter low bus = controllerAfter (UInt8.ofNat (low.toNat % 16)) bus := by
  have hbus : busByte low = busByte (UInt8.ofNat (low.toNat % 16)) := by
    funext level
    have hmod : low.toNat % 16 % 256 % 16 = low.toNat % 16 := by omega
    simp only [busByte, low_nibble, UInt8.toNat_ofNat', hmod]
  simp only [controllerAfter, pulsesOf, panelWiring, hbus]

theorem controllerAfter_ensureOps (low : UInt8) : (controllerAfter low ensureOps).FourBit := by
  have table : ∀ n : Fin 16, (controllerAfter (UInt8.ofNat n.val) ensureOps).FourBit := by
    decide +kernel
  rw [controllerAfter_low]
  exact table ⟨low.toNat % 16, by omega⟩

theorem nibbles_join (low v : UInt8) (rs : Bool) :
    ((nibblePulse low (v.toNat / 16) rs).bus &&& (0xF0 : UInt8)) |||
      (nibblePulse low v.toNat rs).bus >>> (4 : UInt8) = v := by
  have upper : ∀ h l : Fin 16, (UInt8.ofNat (h.val * 16) ||| UInt8.ofNat l.val) &&& (0xF0 : UInt8) =
      UInt8.ofNat (h.val * 16) := by
    decide +kernel
  have lower : ∀ h l : Fin 16, (UInt8.ofNat (h.val * 16) ||| UInt8.ofNat l.val) >>> (4 : UInt8) =
      UInt8.ofNat h.val := by
    decide +kernel
  have join : ∀ n : Fin 256, UInt8.ofNat (n.val / 16 % 16 * 16) ||| UInt8.ofNat (n.val % 16) =
      UInt8.ofNat n.val := by
    decide +kernel
  have hhigh := upper ⟨v.toNat / 16 % 16, by omega⟩ ⟨low.toNat % 16, by omega⟩
  have hlow := lower ⟨v.toNat % 16, by omega⟩ ⟨low.toNat % 16, by omega⟩
  simp only [nibblePulse, low_nibble low, hhigh, hlow]
  simpa using join ⟨v.toNat, v.toNat_lt⟩

theorem controllerAfter_w8 {low : UInt8} {pre : List BusOp}
    (h : (controllerAfter low pre).FourBit) (v : UInt8) (rs : Bool) :
    controllerAfter low (pre ++ [.w8 v rs]) = (controllerAfter low pre).execute rs v := by
  have hpulses : [BusOp.w8 v rs].flatMap (BusOp.pulses low) =
      [⟨rs, (nibblePulse low (v.toNat / 16) rs).bus⟩, ⟨rs, (nibblePulse low v.toNat rs).bus⟩] := rfl
  rw [controllerAfter_append, hpulses, Controller.pulses_pair h, nibbles_join]

theorem execute_fourBit_iff {c : Controller} (h : c.FourBit) (rs : Bool) (v : UInt8) :
    (c.execute rs v).FourBit ↔ ¬ (rs = false ∧ SelectsEightBit v) := by
  obtain ⟨hwidth, -⟩ := h
  have table : ∀ n : Fin 256, (UInt8.ofNat n.val &&& (0xF0 : UInt8) = 0x30) ↔
      (UInt8.ofNat n.val &&& (0xE0 : UInt8) = 0x20 ∧ UInt8.ofNat n.val &&& (0x10 : UInt8) ≠ 0) := by
    decide +kernel
  have hselect : SelectsEightBit v ↔ (v &&& (0xE0 : UInt8) = 0x20 ∧ v &&& (0x10 : UInt8) ≠ 0) := by
    simpa [SelectsEightBit] using table ⟨v.toNat, v.toNat_lt⟩
  simp only [Controller.FourBit, Controller.execute, and_true, hselect, hwidth]
  split_ifs with hfunction
  · simp [hfunction]
  · simp only [true_iff]
    rintro ⟨hrs, hfun, -⟩
    exact hfunction ⟨hrs, hfun⟩

theorem fourBit_step {low : UInt8} {pre : List BusOp} (h : (controllerAfter low pre).FourBit)
    {op : BusOp} (late : Late op) (safe : ∀ v, op = .w8 v false → ¬ SelectsEightBit v) :
    (controllerAfter low (pre ++ [op])).FourBit := by
  cases op with
  | w8 v rs =>
    rw [controllerAfter_w8 h, execute_fourBit_iff h]
    rintro ⟨rfl, hv⟩
    exact safe v rfl hv
  | usleep us =>
    rw [controllerAfter_append]
    exact h
  | gpioExport gpio => exact late.elim
  | gpioSetDir gpio isOut => exact late.elim
  | w4 n rs => exact late.elim

theorem fourBit_run {low : UInt8} {pre rest : List BusOp} (h : (controllerAfter low pre).FourBit)
    (late : ∀ op ∈ rest, Late op)
    (safe : ∀ v, BusOp.w8 v false ∈ rest → ¬ SelectsEightBit v) :
    (controllerAfter low (pre ++ rest)).FourBit := by
  induction rest generalizing pre with
  | nil => simpa using h
  | cons op rest ih =>
    have hstep := fourBit_step h (late op List.mem_cons_self) fun v hv =>
      safe v (hv ▸ List.mem_cons_self)
    have hrun := ih hstep (fun x hx => late x (List.mem_cons_of_mem _ hx)) fun v hv =>
      safe v (List.mem_cons_of_mem _ hv)
    rwa [List.append_assoc, List.singleton_append] at hrun

/-- After the initialisation, driver and controller stay in step exactly while no instruction
selects the 8-bit interface. -/
theorem inStep_iff (low : UInt8) {rest : List BusOp} (late : ∀ op ∈ rest, Late op) :
    InStep low (ensureOps ++ rest) ↔
      ∀ v, BusOp.w8 v false ∈ rest → ¬ SelectsEightBit v := by
  constructor
  · intro h v hmem hselect
    obtain ⟨before, after, rfl⟩ := List.append_of_mem hmem
    have hpre : ensureOps ++ before <+: ensureOps ++ (before ++ .w8 v false :: after) :=
      ⟨.w8 v false :: after, by simp⟩
    have hnext : ensureOps ++ before ++ [.w8 v false] <+:
        ensureOps ++ (before ++ .w8 v false :: after) := ⟨after, by simp⟩
    have hfour := h.fourBit _ hpre (List.prefix_append _ _)
    have hafter := h.fourBit _ hnext ⟨before ++ [.w8 v false], by simp⟩
    rw [controllerAfter_w8 hfour, execute_fourBit_iff hfour] at hafter
    exact hafter ⟨rfl, hselect⟩
  · intro safe
    have four : ∀ pre, pre <+: ensureOps ++ rest → ensureOps <+: pre →
        (controllerAfter low pre).FourBit := by
      rintro pre hpre ⟨done, rfl⟩
      have hdone : done <+: rest := (List.prefix_append_right_inj _).mp hpre
      exact fourBit_run (controllerAfter_ensureOps low) (fun op hop => late op (hdone.subset hop))
        fun v hv => safe v (hdone.subset hv)
    refine ⟨four, ?_⟩
    intro pre v rs hpre hensure
    have hfour := four pre ((List.prefix_append _ _).trans hpre) hensure
    rw [controllerAfter_w8 hfour]
    rfl

def busAfter (calls : List CaptionCall) : List BusOp :=
  (HalState.powerOn.performs (runCalls calls).issued).bus

theorem busOps_late (op : HalOp) : ∀ b ∈ op.busOps, Late b := by
  intro b hb
  cases op with
  | writeLetters text =>
    cases text with
    | none => cases hb
    | some s =>
      obtain ⟨p, -, rfl⟩ := List.mem_map.mp hb
      trivial
  | _ =>
    obtain rfl := List.mem_singleton.mp hb
    trivial

theorem issued_prefix (r : Run) (cs : List Screen) :
    r.issued <+: (cs.foldl Run.screen r).issued := by
  induction cs generalizing r with
  | nil => exact List.prefix_refl _
  | cons c cs ih => exact (List.prefix_append _ _).trans (ih (r.screen c))

theorem issued_of_screen {calls : List CaptionCall} {c : Screen} (h : .screen c ∈ calls) :
    ∃ ops, (runCalls calls).issued = .writeInstr Caption.basicFunc :: ops := by
  have hscreens : c ∈ screensOf calls := List.mem_filterMap.mpr ⟨.screen c, h, rfl⟩
  obtain ⟨first, later, hsplit⟩ := List.exists_cons_of_ne_nil (List.ne_nil_of_mem hscreens)
  obtain ⟨body, -, hbody⟩ := first.drawn_eq
  obtain ⟨tail, htail⟩ := issued_prefix (Run.powerOn.screen first) later
  have hissued : (runCalls calls).issued = first.drawn ++ tail := by
    rw [runCalls_eq, hsplit]
    exact htail.symm
  rw [hissued, hbody]
  exact ⟨_, rfl⟩

theorem issued_of_no_screen {calls : List CaptionCall} (h : ∀ c, CaptionCall.screen c ∉ calls) :
    (runCalls calls).issued = [] := by
  have hscreens : screensOf calls = [] := by
    rw [screensOf, List.filterMap_eq_nil_iff]
    intro call hcall
    cases call with
    | version => rfl
    | screen c => exact absurd hcall (h c)
  rw [runCalls_eq, hscreens]
  rfl

/-- A run stays in step exactly when it shows no screen: every screen begins with a Function Set
whose DL bit selects the 8-bit interface. -/
theorem run_inStep_iff (low : UInt8) (calls : List CaptionCall) :
    InStep low (busAfter calls) ↔ ∀ c, CaptionCall.screen c ∉ calls := by
  constructor
  · intro h c hc
    obtain ⟨ops, hops⟩ := issued_of_screen hc
    have late : ∀ op ∈ (HalOp.writeInstr Caption.basicFunc :: ops).flatMap HalOp.busOps,
        Late op := by
      intro op hop
      obtain ⟨x, -, hx⟩ := List.mem_flatMap.mp hop
      exact busOps_late x op hx
    rw [busAfter, hops, performs_writeInstr_powerOn, inStep_iff low late] at h
    apply h 0x38 List.mem_cons_self
    decide
  · intro h
    have hnil : busAfter calls = [] := by
      rw [busAfter, issued_of_no_screen h]
      rfl
    have absurd_pre : ∀ pre, pre <+: busAfter calls → ¬ ensureOps <+: pre := by
      intro pre hpre hensure
      rw [hnil] at hpre
      exact absurd (hensure.trans hpre).length_le (by decide)
    refine ⟨fun pre hpre hensure => absurd hensure (absurd_pre pre hpre), ?_⟩
    intro pre v rs hpre hensure
    exact absurd hensure (absurd_pre pre ((List.prefix_append _ _).trans hpre))

/-- The boot screen alone: after its first byte the controller is in 8-bit mode. -/
theorem initial_out_of_step : ¬ InStep 0x00 (busAfter [.screen .initial]) := by
  intro h
  have hfour := h.fourBit (ensureOps ++ [.w8 0x38 false]) (by decide +kernel)
    (List.prefix_append _ _)
  revert hfour
  decide +kernel

end Evi7688.Libevi.InterfaceWidth
