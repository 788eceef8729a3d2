/- Evi7688/Lcdsvc/OpenHandles
   digest: The GPIO handles the daemon holds open over its commands, and which of them it knows. -/

import Evi7688.Lcdsvc.WriteFailures

set_option autoImplicit false
set_option relaxedAutoImplicit false

namespace Evi7688.Lcdsvc.OpenHandles

open Evi7688.Library.CharacterPanel (Pulse)
open LcdHw
open Service
open WriteFailures

def handleOf : GpioEvent → Option Int
  | .openHandle _ fd => if 0 ≤ fd then some fd else none
  | _ => none

/-- The handles that were opened: `lcd_hw_free` is never called, so no other call ends one. -/
def openHandles (h : Host) : List Int := h.events.filterMap handleOf

/-- Every open handle is in `g`, where `lcd_hw_free` would find it; then there are few. -/
structure Accounted (h : Host) : Prop where
  recorded : ∀ fd ∈ openHandles h, ∃ l, h.g.fd l = fd
  few : (openHandles h).toFinset.card ≤ 11

/-- The daemon when it has read its pins and initialised the panel, before the first client. -/
def started (env : SysfsEnv) : Host :=
  runCommand env .init ⟨⟨⟨fun _ => 0, 0⟩, fun _ => 0⟩, ⟨fun _ => 0, 0⟩, []⟩

def served (env : SysfsEnv) (commands : List Command) : Host :=
  commands.foldl (fun h c => runCommand env c h) (started env)

structure SameHandles (h h' : Host) : Prop where
  g : h'.g = h.g
  open_eq : openHandles h' = openHandles h

section Writes

variable (env : SysfsEnv)

theorem SameHandles.refl (h : Host) : SameHandles h h := ⟨rfl, rfl⟩

theorem SameHandles.trans {h h' h'' : Host} (first : SameHandles h h')
    (second : SameHandles h' h'') : SameHandles h h'' :=
  ⟨second.g.trans first.g, second.open_eq.trans first.open_eq⟩

theorem openHandles_emit (h : Host) (e : GpioEvent) :
    openHandles (h.emit e) = openHandles h ++ (handleOf e).toList := by
  rw [openHandles, Host.emit, List.filterMap_append, openHandles]
  cases he : handleOf e <;> simp [he]

theorem sameHandles_gpioWriteFd (l : Line) (val : Bool) (h : Host) :
    SameHandles h (gpioWriteFd env l val h).2 :=
  ⟨rfl, (openHandles_emit h _).trans (List.append_nil _)⟩

theorem sameHandles_foldl {β : Type} {f : Host → β → Host}
    (step : ∀ h b, SameHandles h (f h b)) (bs : List β) (h : Host) :
    SameHandles h (bs.foldl f h) := by
  induction bs generalizing h with
  | nil => exact .refl h
  | cons b bs ih => exact (step h b).trans (ih (f h b))

theorem sameHandles_setDataBusFrom (val : UInt8) (is : List (Fin 8)) (h : Host) :
    SameHandles h (setDataBusFrom env val is h).2 := by
  induction is generalizing h with
  | nil => exact .refl h
  | cons i is ih =>
    have hwrite := sameHandles_gpioWriteFd env (.d i) (val.toNat.testBit i) h
    simp only [setDataBusFrom]
    split_ifs
    · exact hwrite
    · exact hwrite.trans (ih _)
    · exact ih h

theorem sameHandles_pulseEn (h : Host) : SameHandles h (pulseEn env h).2 := by
  have hup := sameHandles_gpioWriteFd env .en true h
  have hdown := sameHandles_gpioWriteFd env .en false (gpioWriteFd env .en true h).2
  simp only [pulseEn]
  split_ifs
  · exact hup
  · exact hup.trans hdown
  · exact hup.trans hdown

theorem sameHandles_lcdWrite (rs : Bool) (v : UInt8) (h : Host) :
    SameHandles h (lcdWrite env rs v h).2 := by
  have hrs := sameHandles_gpioWriteFd env .rs rs h
  have hrw := sameHandles_gpioWriteFd env .rw false (gpioWriteFd env .rs rs h).2
  have hbus := sameHandles_setDataBusFrom env v dataLines
    (gpioWriteFd env .rw false (gpioWriteFd env .rs rs h).2).2
  exact ((hrs.trans hrw).trans hbus).trans (sameHandles_pulseEn env _)

theorem sameHandles_performed (c : Command) (h : Host) : SameHandles h (performed env c h) := by
  have hlow := sameHandles_foldl (fun h (x : Line × Bool) => sameHandles_gpioWriteFd env x.1 x.2 h)
    (lowWrites c) h
  have hbytes := sameHandles_foldl (fun h (p : Pulse) => sameHandles_lcdWrite env p.rs p.bus h)
    (requested c)
  exact hlow.trans (hbytes _)

end Writes

section Opening

variable (env : SysfsEnv)

theorem openHandles_gpioOpenHandle (l : Line) (h : Host) :
    openHandles (gpioOpenHandle env l h) =
      openHandles h ++ if 0 ≤ env.openResult h.events.length then
        [env.openResult h.events.length] else [] := by
  have hemit := openHandles_emit h (.openHandle (h.pins.pin l) (env.openResult h.events.length))
  apply hemit.trans
  simp only [handleOf]
  split_ifs <;> rfl

theorem openAll_handles {ls : List Line} (distinct : ls.Nodup) (h : Host) :
    ∃ new, openHandles (ls.foldl (fun h l => gpioOpenHandle env l h) h) = openHandles h ++ new ∧
      ∀ fd, fd ∈ new ↔ 0 ≤ fd ∧
        ∃ l ∈ ls, (ls.foldl (fun h l => gpioOpenHandle env l h) h).g.fd l = fd := by
  induction ls generalizing h with
  | nil => exact ⟨[], by simp, by simp⟩
  | cons l ls ih =>
    rw [List.nodup_cons] at distinct
    obtain ⟨new, hopen, hnew⟩ := ih distinct.2 (gpioOpenHandle env l h)
    have hfirst : (ls.foldl (fun h l => gpioOpenHandle env l h) (gpioOpenHandle env l h)).g.fd l =
        env.openResult h.events.length := by
      rw [openAll_fd_of_notMem env distinct.1, gpioOpenHandle_fd, if_pos rfl]
    rw [openHandles_gpioOpenHandle, List.append_assoc] at hopen
    refine ⟨_, hopen, fun fd => ?_⟩
    rw [List.mem_append, hnew, List.foldl_cons, List.exists_mem_cons_iff, hfirst]
    by_cases hvalid : 0 ≤ env.openResult h.events.length
    · rw [if_pos hvalid, List.mem_singleton]
      constructor
      · rintro (rfl | ⟨hfd, hlater⟩)
        · exact ⟨hvalid, Or.inl rfl⟩
        · exact ⟨hfd, Or.inr hlater⟩
      · rintro ⟨hfd, rfl | hlater⟩
        · exact Or.inl rfl
        · exact Or.inr ⟨hfd, hlater⟩
    · rw [if_neg hvalid]
      constructor
      · rintro (hnone | ⟨hfd, hlater⟩)
        · exact absurd hnone List.not_mem_nil
        · exact ⟨hfd, Or.inr hlater⟩
      · rintro ⟨hfd, rfl | hlater⟩
        · exact absurd hfd hvalid
        · exact Or.inr ⟨hfd, hlater⟩

theorem filterMap_handleOf_map {event : Line → GpioEvent} (closed : ∀ l, handleOf (event l) = none)
    (ls : List Line) : (ls.map event).filterMap handleOf = [] := by
  rw [List.filterMap_eq_nil_iff]
  intro e he
  obtain ⟨l, -, rfl⟩ := List.mem_map.mp he
  exact closed l

theorem runCommand_init_handles (h : Host) :
    ∃ new, openHandles (runCommand env .init h) = openHandles h ++ new ∧
      ∀ fd, fd ∈ new ↔ 0 ≤ fd ∧ ∃ l, (runCommand env .init h).g.fd l = fd := by
  have hsame := sameHandles_performed env .init (start env .init h)
  rw [← runCommand_eq] at hsame
  have hstart : start env .init h = opened env (loadPinsFromUci env h) := rfl
  rw [hstart, opened_eq] at hsame
  have distinct : allLines.Nodup := by decide
  obtain ⟨new, hopen, hnew⟩ := openAll_handles env distinct
    { loadPinsFromUci env h with
      g := ⟨(loadPinsFromUci env h).pins, fun _ => 0⟩
      events := (loadPinsFromUci env h).events ++
        (allLines.map fun l => .export ((loadPinsFromUci env h).pins.pin l)) ++
        allLines.map fun l => .direction ((loadPinsFromUci env h).pins.pin l) true }
  refine ⟨new, ?_, fun fd => ?_⟩
  · rw [hsame.open_eq, hopen]
    refine congrArg (· ++ new) ?_
    simp only [openHandles, List.filterMap_append]
    rw [filterMap_handleOf_map (fun _ => rfl), filterMap_handleOf_map (fun _ => rfl),
      List.append_nil, List.append_nil]
    rfl
  · rw [hnew, hsame.g]
    constructor
    · rintro ⟨hfd, l, -, hl⟩
      exact ⟨hfd, l, hl⟩
    · rintro ⟨hfd, l, hl⟩
      exact ⟨hfd, l, mem_allLines l, hl⟩

theorem sameHandles_runCommand {c : Command} (hc : c ≠ .init) (h : Host) :
    SameHandles h (runCommand env c h) := by
  have hstart : start env c h = h := by
    cases c with
    | init => exact absurd rfl hc
    | _ => rfl
  rw [runCommand_eq, hstart]
  exact sameHandles_performed env c h

end Opening

section Run

variable {env : SysfsEnv}

theorem accounted_of_recorded {h : Host} (recorded : ∀ fd ∈ openHandles h, ∃ l, h.g.fd l = fd) :
    Accounted h := by
  refine ⟨recorded, ?_⟩
  have hsub : (openHandles h).toFinset ⊆ (allLines.map h.g.fd).toFinset := by
    intro fd hfd
    obtain ⟨l, rfl⟩ := recorded fd (List.mem_toFinset.mp hfd)
    exact List.mem_toFinset.mpr (List.mem_map_of_mem (mem_allLines l))
  have hlines : (allLines.map h.g.fd).length = 11 := by
    rw [List.length_map]
    rfl
  have hcard := List.toFinset_card_le (allLines.map h.g.fd)
  exact (Finset.card_le_card hsub).trans (hlines ▸ hcard)

theorem recorded_init {h : Host} (none_open : openHandles h = []) :
    ∀ fd ∈ openHandles (runCommand env .init h), ∃ l, (runCommand env .init h).g.fd l = fd := by
  obtain ⟨new, hopen, hnew⟩ := runCommand_init_handles env h
  intro fd hfd
  rw [hopen, none_open, List.nil_append, hnew] at hfd
  exact hfd.2

theorem served_snoc (env : SysfsEnv) (commands : List Command) (c : Command) :
    served env (commands ++ [c]) = runCommand env c (served env commands) := by
  rw [served, List.foldl_append]
  rfl

theorem openHandles_served_starts {before commands : List Command} (h : before <+: commands) :
    openHandles (served env before) <+: openHandles (served env commands) := by
  obtain ⟨rest, rfl⟩ := h
  induction rest using List.reverseRecOn with
  | nil => rw [List.append_nil]
  | append_singleton rest c ih =>
    rw [← List.append_assoc, served_snoc]
    apply ih.trans
    by_cases hc : c = .init
    · subst hc
      obtain ⟨new, hopen, -⟩ := runCommand_init_handles env (served env (before ++ rest))
      rw [hopen]
      exact List.prefix_append _ _
    · rw [(sameHandles_runCommand env hc _).open_eq]

/-- The daemon accounts for every handle exactly as long as `INIT` comes while none is open: it
clears `g` without closing what is there. -/
theorem accounted_iff (env : SysfsEnv) (commands : List Command)
    (fresh : (openHandles (served env commands)).Nodup) :
    (∀ before, before <+: commands → Accounted (served env before)) ↔
      ∀ before, before ++ [.init] <+: commands → openHandles (served env before) = [] := by
  constructor
  · intro haccounted before hbefore
    have hafter := haccounted _ hbefore
    rw [served_snoc] at hafter
    obtain ⟨new, hopen, hnew⟩ := runCommand_init_handles env (served env before)
    have hdistinct := fresh.sublist (openHandles_served_starts hbefore).sublist
    rw [served_snoc, hopen] at hdistinct
    apply List.eq_nil_iff_forall_not_mem.mpr
    intro fd hfd
    have hvalid : 0 ≤ fd := by
      obtain ⟨e, -, he⟩ := List.mem_filterMap.mp hfd
      cases e with
      | openHandle pin fd' =>
        simp only [handleOf] at he
        split_ifs at he with hpos
        exact Option.some.inj he ▸ hpos
      | _ => cases he
    obtain ⟨l, hl⟩ := hafter.recorded fd (hopen ▸ List.mem_append_left new hfd)
    have hagain : fd ∈ new := (hnew fd).mpr ⟨hvalid, l, hl⟩
    exact (List.nodup_append.mp hdistinct).2.2 fd hfd fd hagain rfl
  · intro hclosed before hbefore
    apply accounted_of_recorded
    induction before using List.reverseRecOn with
    | nil => exact recorded_init rfl
    | append_singleton before c ih =>
      rw [served_snoc]
      by_cases hc : c = .init
      · subst hc
        exact recorded_init (hclosed before hbefore)
      · have hsame := sameHandles_runCommand env hc (served env before)
        rw [hsame.open_eq, hsame.g]
        exact ih ((List.prefix_append _ _).trans hbefore)

end Run

theorem accounted_while_writing : Accounted (served openEnv [.clear, .put [0x41]]) := by
  have noInit : ∀ before, before ++ [.init] <+: [.clear, .put [0x41]] →
      openHandles (served openEnv before) = [] := by
    intro before hbefore
    have hinit : Command.init ∈ [.clear, .put [0x41]] :=
      hbefore.subset (List.mem_append_right _ List.mem_cons_self)
    exact absurd hinit (by decide)
  have fresh : (openHandles (served openEnv [.clear, .put [0x41]])).Nodup := by
    decide +kernel
  exact (accounted_iff openEnv [.clear, .put [0x41]] fresh).mpr noInit _ (List.prefix_refl _)

/-- One client asks for `INIT`: eleven handles are lost. -/
theorem init_loses_handles : ¬ Accounted (served openEnv [.init]) := by
  intro accounted
  have htwice : (openHandles (served openEnv [.init])).toFinset.card = 22 := by
    decide +kernel
  have hfew := accounted.few
  omega

end Evi7688.Lcdsvc.OpenHandles
